import BlockScope.Object

namespace BlockScope

/-- How much an event matters, the gravest first. -/
inductive Level where
  | error
  | warn
  | info
  | debug
  | trace
deriving DecidableEq, Repr

namespace Level

def word : Level → String
  | error => "ERROR"
  | warn => "WARN"
  | info => "INFO"
  | debug => "DEBUG"
  | trace => "TRACE"

/-- The graver the level, the smaller its rank. -/
def rank : Level → Nat
  | error => 0
  | warn => 1
  | info => 2
  | debug => 3
  | trace => 4

end Level

/-- What a table, its teardown and the command line report while they work. -/
inductive Event where
  | opened (builtins : Nat)
  | limited (maxIdentLength : Nat)
  | entered (owner : String) (scope : ScopeId)
  | exited (owner : String) (scope : ScopeId)
  | strayParameter (name : String) (host : Kind)
  | declared (kind : Kind) (name : String) (host : String)
  | orphaned (objects : Nat)
  | released (objects scopes typeNodes constants : Nat)
deriving DecidableEq, Repr

namespace Event

def level : Event → Level
  | strayParameter .. | orphaned _ => .warn
  | opened _ | limited _ | declared .. | released .. => .debug
  | entered .. | exited .. => .trace

/-- The part of the program that reports the event. -/
def target : Event → String
  | opened _ | entered .. | exited .. | strayParameter .. | declared .. =>
    "kpl_semantics::symtab::table"
  | orphaned _ | released .. => "kpl_semantics::symtab::teardown"
  | limited _ => "kplsem"

/-- The release counts in words, as the log and the command line both give them. -/
def releaseText (objects scopes typeNodes constants : Nat) : String :=
  toString objects ++ " objects, " ++ toString scopes ++ " scopes, " ++
    toString typeNodes ++ " type nodes, " ++ toString constants ++ " constants"

def message : Event → String
  | opened builtins =>
    "symbol table initialized with " ++ toString builtins ++ " built-ins"
  | limited maxIdentLength =>
    "identifiers limited to " ++ toString maxIdentLength ++ " characters"
  | entered owner scope =>
    "enter block of '" ++ owner ++ "' (ScopeId(" ++ toString scope.index ++ "))"
  | exited owner scope =>
    "exit block of '" ++ owner ++ "' (ScopeId(" ++ toString scope.index ++ "))"
  | strayParameter name host =>
    "parameter '" ++ name ++ "' declared in a " ++ host.word ++
      " scope; not added to any parameter list"
  | declared kind name host =>
    "declared " ++ kind.word ++ " '" ++ name ++ "' in scope of '" ++ host ++ "'"
  | orphaned objects => toString objects ++ " object(s) were created but never declared"
  | released objects scopes typeNodes constants =>
    "symbol table released: " ++ releaseText objects scopes typeNodes constants

end Event

end BlockScope
