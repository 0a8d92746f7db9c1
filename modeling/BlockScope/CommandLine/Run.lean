import BlockScope.Declarations
import BlockScope.Dump
import BlockScope.Release

namespace BlockScope.CommandLine

/-- What a run of the command shows of itself. -/
structure Display where
  exitCode : Nat
  stdout : String
  stderr : String
deriving DecidableEq, Repr

/-- What the arguments ask for. -/
structure Options where
  builtins : Bool
  verbose : Bool
  maxIdentLength : Option Nat
deriving DecidableEq, Repr

/-- What the command leaves to others. They read its arguments, and write what goes to the
standard error besides the counts of a release. -/
structure Tools where
  /-- Read the arguments. Without options to run with, the parser shows something itself: its
  help, the version of the command, or a complaint. -/
  parse : List String → Except Display Options
  /-- The report of the error that ends a run, from what was attempted and the reason. -/
  failureReport : (attempt reason : String) → String
  /-- A filter lets through records of this level and target. -/
  keeps : (filter : String) → Level → (target : String) → Bool
  /-- A record as it stands in the log. -/
  record : Level → (target message : String) → String

namespace Tools

/-- What is logged of the events, in their order. -/
def log (tools : Tools) (filter : String) (events : List Event) : String :=
  String.join ((events.filter fun e => tools.keeps filter e.level e.target).map
    fun e => tools.record e.level e.target e.message)

end Tools

/-- The stages of a run that may fail. -/
inductive Stage where
  | declaration
  | teardown
deriving DecidableEq, Repr

/-- What the report of an error says of the stage where it was met. -/
def Stage.attempt : Stage → String
  | declaration => "failed to declare the reference program"
  | teardown => "symbol table teardown failed"

def releaseLine (r : Report) : String :=
  "Released " ++ Event.releaseText r.objects r.scopes r.typeNodes r.constants ++ "\n"

namespace Options

def limit (o : Options) : Nat :=
  o.maxIdentLength.getD Table.defaultMaxIdentLength

/-- The filter of the log. One that is set from outside counts before that of the options. -/
def filter (o : Options) (setting : Option String) : String :=
  setting.getD (if o.verbose then "debug" else "warn")

/-- The table that is dumped: the predeclared routines, with the reference program unless
only the routines are asked for. -/
def load (o : Options) : Outcome Unit :=
  let t := Table.initial o.limit
  let opened := Outcome.accepted () t (t.openingLog ++ [.limited o.limit])
  if o.builtins then opened
  else opened.andThen fun _ t => (Program.reference.load t).map fun _ => ()

def dump (o : Options) (t : Table) : String :=
  (if o.builtins then t.dumpGlobals? else t.dumpProgram?).getD ""

/-- Build a table, dump it and release it. -/
def run (o : Options) (tools : Tools) (setting : Option String) : Display :=
  let shown := tools.log (o.filter setting)
  let failed (stage : Stage) (e : SemanticError) := tools.failureReport stage.attempt e.message
  let loaded := o.load
  match loaded.result with
  | .error e => ⟨1, "", shown loaded.log ++ failed .declaration e⟩
  | .ok () =>
    let t := loaded.table
    let log := shown (loaded.log ++ t.releaseLog)
    match t.release with
    | .error e => ⟨1, o.dump t, log ++ failed .teardown e⟩
    | .ok report => ⟨0, o.dump t, if o.verbose then log ++ releaseLine report else log⟩

end Options

/-- The whole command, with the filter of the log that is set from outside, if there is one. -/
def Tools.run (tools : Tools) (arguments : List String) (setting : Option String) : Display :=
  match tools.parse arguments with
  | .error display => display
  | .ok options => options.run tools setting

end BlockScope.CommandLine
