import BlockScope.Error
import BlockScope.Log

namespace BlockScope

/-- The symbol table of one compilation: every object and scope created so far,
addressed by handles. Scopes, parameter lists and the links between them hold
handles only, so the two arrays are the only places where objects and scopes live. -/
structure Table where
  maxIdentLength : Nat
  objects : Array Object
  scopes : Array Scope
  /-- The program object, once there is one. -/
  program : Option ObjectId
  /-- The predeclared routines, which enclose every program. -/
  globals : List ObjectId
  /-- The innermost entered scope. -/
  current : Option ScopeId
deriving DecidableEq, Repr

namespace Table

/-- The table has created the object `o`. -/
def HasObject (t : Table) (o : ObjectId) : Prop :=
  o.index < t.objects.size

/-- The table has created the scope `s`. -/
def HasScope (t : Table) (s : ScopeId) : Prop :=
  s.index < t.scopes.size

instance (t : Table) (o : ObjectId) : Decidable (t.HasObject o) :=
  inferInstanceAs (Decidable (_ < _))

instance (t : Table) (s : ScopeId) : Decidable (t.HasScope s) :=
  inferInstanceAs (Decidable (_ < _))

/-- The object `o` of the table. A handle of no object reads as a nameless constant. -/
def object (t : Table) (o : ObjectId) : Object :=
  t.objects[o.index]?.getD default

/-- The scope `s` of the table. A handle of no scope reads as an empty scope. -/
def scope (t : Table) (s : ScopeId) : Scope :=
  t.scopes[s.index]?.getD default

def name (t : Table) (o : ObjectId) : String :=
  (t.object o).name

/-- The handle of the object that is created next. -/
def nextObject (t : Table) : ObjectId :=
  ⟨t.objects.size⟩

/-- The handle of the scope that is created next. -/
def nextScope (t : Table) : ScopeId :=
  ⟨t.scopes.size⟩

def modifyObject (t : Table) (o : ObjectId) (f : Object → Object) : Table :=
  { t with objects := t.objects.modify o.index f }

def modifyScope (t : Table) (s : ScopeId) (f : Scope → Scope) : Table :=
  { t with scopes := t.scopes.modify s.index f }

end Table

/-- What an operation leaves behind: its answer or the reason why it was refused,
the table after it, and what it reported on the way. -/
structure Outcome (α : Type) where
  result : Except SemanticError α
  table : Table
  log : List Event

namespace Outcome

def accepted {α : Type} (answer : α) (t : Table) (log : List Event) : Outcome α :=
  ⟨.ok answer, t, log⟩

/-- A refused operation leaves its table as it found it and reports nothing. -/
def refused {α : Type} (e : SemanticError) (t : Table) : Outcome α :=
  ⟨.error e, t, []⟩

/-- A question about a table: whatever the answer, the table stays and nothing is
reported. -/
def ofAnswer {α : Type} (answer : Except SemanticError α) (t : Table) : Outcome α :=
  ⟨answer, t, []⟩

/-- Go on from an accepted operation with its answer and its table. After a refusal
nothing more happens, and what was done before it stays done. -/
def andThen {α β : Type} (first : Outcome α) (next : α → Table → Outcome β) : Outcome β :=
  match first.result with
  | .ok answer =>
    let second := next answer first.table
    { second with log := first.log ++ second.log }
  | .error e => ⟨.error e, first.table, first.log⟩

def map {α β : Type} (f : α → β) (o : Outcome α) : Outcome β :=
  ⟨o.result.map f, o.table, o.log⟩

end Outcome

end BlockScope
