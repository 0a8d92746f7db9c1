import BlockScope.CommandLine.Run

namespace BlockScope.CommandLine

/-- The shape of one argument. -/
inductive Argument where
  /-- After it, everything is positional. -/
  | terminator
  /-- A bundle of options of one letter each. -/
  | letters (bundle : List Char)
  /-- An option of several letters, with the text after its first equals sign, if any. -/
  | long (name : String) (value : Option String)
  | positional
deriving DecidableEq, Repr

/-- A lone dash and the empty text are positional. -/
def Argument.ofString (text : String) : Argument :=
  match text.toList with
  | ['-', '-'] => terminator
  | '-' :: '-' :: body =>
    let name := String.ofList (body.takeWhile (· ≠ '='))
    match body.dropWhile (· ≠ '=') with
    | [] => long name none
    | _ :: value => long name (some (String.ofList value))
  | '-' :: letter :: more => letters (letter :: more)
  | _ => positional

/-- An accepted command line. -/
inductive Invocation where
  | help
  | version
  | inspect (options : Options)
deriving DecidableEq, Repr

/-- The number that a text of ASCII digits writes, a single plus sign before them allowed,
if it fits into 64 bits. -/
def readLimit? (text : String) : Option Nat :=
  let digits : List Char := match text.toList with
    | '+' :: digits => digits
    | digits => digits
  let number : Nat := digits.foldl (fun n c => 10 * n + (c.toNat - '0'.toNat)) 0
  if digits ≠ [] ∧ digits.all Char.isDigit ∧ number < UInt64.size then some number else none

namespace Options

/-- The options of a command line without arguments. -/
def unset : Options :=
  ⟨false, false, none⟩

/-- No option is given twice. -/
def setBuiltins? (o : Options) : Option Options :=
  if o.builtins then none else some { o with builtins := true }

def setVerbose? (o : Options) : Option Options :=
  if o.verbose then none else some { o with verbose := true }

def setLimit? (o : Options) (text : String) : Option Options :=
  match o.maxIdentLength with
  | some _ => none
  | none => (readLimit? text).map fun limit => { o with maxIdentLength := some limit }

/-- Read the letters of a bundle from left to right. The help and the version are asked for
as soon as their letter is met, whatever stands behind it. -/
def readLetters? (o : Options) : List Char → Option Invocation
  | [] => some (.inspect o)
  | 'v' :: rest => o.setVerbose?.bind fun o => o.readLetters? rest
  | 'h' :: _ => some .help
  | 'V' :: _ => some .version
  | _ :: _ => none

/-- Read arguments from left to right, after those that `o` stands for. The first that is
refused or asks for the help or the version decides. -/
def read? (o : Options) : List String → Option Invocation
  | [] => some (.inspect o)
  | argument :: rest =>
    match Argument.ofString argument with
    | .terminator => if rest.isEmpty then some (.inspect o) else none
    | .positional => none
    | .letters bundle =>
      match o.readLetters? bundle with
      | some (.inspect o) => o.read? rest
      | decided => decided
    | .long "help" none => some .help
    | .long "version" none => some .version
    | .long "builtins" none => o.setBuiltins?.bind fun o => o.read? rest
    | .long "verbose" none => o.setVerbose?.bind fun o => o.read? rest
    | .long "max-ident-len" (some text) => (o.setLimit? text).bind fun o => o.read? rest
    | .long "max-ident-len" none =>
      match rest with
      | [] => none
      | text :: rest =>
        if text.startsWith "-" then none else (o.setLimit? text).bind fun o => o.read? rest
    | .long _ _ => none

end Options

def usage : String :=
  "Usage: kplsem [OPTIONS]\n"

def help : String :=
  "Build and dump a KPL symbol table\n\n" ++ usage ++ "\nOptions:\n" ++
    "      --builtins                       Only dump the predeclared global environment\n" ++
    "      --max-ident-len <MAX_IDENT_LEN>  Longest accepted identifier [default: " ++
      toString Table.defaultMaxIdentLength ++ "]\n" ++
    "  -v, --verbose                        Verbose output\n" ++
    "  -h, --help                           Print help\n" ++
    "  -V, --version                        Print version\n"

/-- The options that the arguments ask for, or what is shown instead. -/
def parseArguments (arguments : List String) : Except Display Options :=
  match Options.unset.read? arguments with
  | some (.inspect options) => .ok options
  | some .help => .error ⟨0, help, ""⟩
  | some .version => .error ⟨0, "kplsem 0.1.0\n", ""⟩
  | none => .error ⟨2, "", "error: invalid arguments\n\n" ++ usage ++
      "\nFor more information, try '--help'.\n"⟩

/-- The levels that a log keeps: none of them, or those at least as grave as a level. -/
inductive Threshold where
  | off
  | upTo (level : Level)
deriving DecidableEq, Repr

namespace Threshold

def keeps : Threshold → Level → Bool
  | off, _ => false
  | upTo level, graver => graver.rank ≤ level.rank

/-- The threshold that a filter names, in whatever letter case. An empty one names errors. -/
def ofWord? (filter : String) : Option Threshold :=
  match filter.toLower with
  | "off" => some off
  | "" | "error" => some (upTo .error)
  | "warn" => some (upTo .warn)
  | "info" => some (upTo .info)
  | "debug" => some (upTo .debug)
  | "trace" => some (upTo .trace)
  | _ => none

end Threshold

/-- The tools that the command runs with. A filter that is no level names the target whose
records are kept. -/
def Tools.standard : Tools where
  parse := parseArguments
  failureReport attempt reason :=
    "Error: " ++ attempt ++ "\n\nCaused by:\n    " ++ reason ++ "\n"
  keeps filter level target :=
    match Threshold.ofWord? filter with
    | some threshold => threshold.keeps level
    | none => target.startsWith filter
  record level target message :=
    let word := level.word
    "[" ++ word ++ String.ofList (List.replicate (5 - word.length) ' ') ++ " " ++ target ++ "] " ++
      message ++ "\n"

end BlockScope.CommandLine
