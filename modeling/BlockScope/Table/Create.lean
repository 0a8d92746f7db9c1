import BlockScope.Table.Basic

namespace BlockScope

/-- What a new object is to be, with what has to be known from the start. -/
inductive Blueprint where
  | program
  | constant
  | alias
  | var
  | function
  | procedure
  | parameter (mode : ParamMode) (owner : ObjectId)
deriving DecidableEq, Repr

def Blueprint.kind : Blueprint → Kind
  | .program => .program
  | .constant => .constant
  | .alias => .alias
  | .var => .var
  | .function => .function
  | .procedure => .procedure
  | .parameter .. => .parameter

namespace Table

/-- The attributes of an object created now. Its body is the next scope, and a
variable remembers the scope that is current. -/
def newAttributes (t : Table) : Blueprint → Attributes
  | .program => .program t.nextScope
  | .constant => .constant none
  | .alias => .alias none
  | .var => .var none t.current
  | .function => .function [] none t.nextScope
  | .procedure => .procedure [] t.nextScope
  | .parameter mode owner => .parameter none mode owner

/-- The scopes after the creation of an object: one more, if it has a body. The body
of the program is outermost; that of a routine is nested in the current scope. -/
def newScopes (t : Table) (b : Blueprint) : Array Scope :=
  if b.kind.hasBody then
    t.scopes.push ⟨[], t.nextObject, if b.kind = .program then none else t.current⟩
  else t.scopes

/-- The table with one more object. The program is registered at once, for the table
itself holds it; all others wait for their declaration. -/
def allocate (t : Table) (b : Blueprint) (name : String) : Table :=
  { t with
    objects := t.objects.push ⟨name, t.newAttributes b, b.kind = .program⟩
    scopes := t.newScopes b
    program := if b.kind = .program then some t.nextObject else t.program }

/-- Create an object, which is declared nowhere yet. Names longer than the limit are
refused, and so is a second program. -/
def create (t : Table) (b : Blueprint) (name : String) : Outcome ObjectId :=
  if t.maxIdentLength < name.length then
    .refused (.identTooLong name t.maxIdentLength) t
  else
    match b.kind, t.program with
    | .program, some existing => .refused (.programAlreadyDefined (t.name existing)) t
    | _, _ => .accepted t.nextObject (t.allocate b name) []

/-- Create a scope that is the body of no object. -/
def createScope (t : Table) (owner : ObjectId) (outer : Option ScopeId) : Outcome ScopeId :=
  .accepted t.nextScope { t with scopes := t.scopes.push ⟨[], owner, outer⟩ } []

end Table

/-- The heading of a predeclared routine: a function if it has a result type, and a
procedure otherwise. All its parameters are passed by value. -/
structure Signature where
  name : String
  result : Option Ty
  params : List (String × Ty)
deriving DecidableEq, Repr

/-- The input and output routines that every program can use. -/
def predeclared : List Signature :=
  [⟨"READC", some .char, []⟩,
   ⟨"READI", some .int, []⟩,
   ⟨"WRITEI", none, [("i", .int)]⟩,
   ⟨"WRITEC", none, [("ch", .char)]⟩,
   ⟨"WRITELN", none, []⟩]

/-- The types that belong to a table itself and not to any of its objects. -/
def sharedTypes : List Ty :=
  [.int, .char]

namespace Table

/-- Add a routine to the predeclared ones: the routine, then its parameters, all of them
registered, with the parameters declared in a body that nothing encloses. -/
def install (t : Table) (sig : Signature) : Table :=
  let routine := t.nextObject
  let params := (List.range sig.params.length).map fun i => ⟨routine.index + 1 + i⟩
  let attributes := match sig.result with
    | some result => Attributes.function params (some result) t.nextScope
    | none => Attributes.procedure params t.nextScope
  let declared := sig.params.map fun (name, ty) =>
    ⟨name, .parameter (some ty) .byValue routine, true⟩
  { t with
    objects := t.objects.push ⟨sig.name, attributes, true⟩ ++ declared.toArray
    scopes := t.scopes.push ⟨params, routine, none⟩
    globals := t.globals ++ [routine] }

/-- A table that holds the predeclared routines and nothing else. They are there
whatever the limit on identifiers. -/
def initial (maxIdentLength : Nat) : Table :=
  predeclared.foldl install ⟨maxIdentLength, #[], #[], none, [], none⟩

/-- What the creation of a table reports. -/
def openingLog (t : Table) : List Event :=
  [.opened t.globals.length]

/-- The limit on identifiers where nobody asks for another. -/
def defaultMaxIdentLength : Nat :=
  15

end Table

end BlockScope
