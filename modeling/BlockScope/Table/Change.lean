import BlockScope.Table.Basic

namespace BlockScope.Table

def mismatch (t : Table) (o : ObjectId) (expected : Role) : SemanticError :=
  .kindMismatch (t.name o) expected (t.object o).kind

/-- Record a type or value on an object of the fitting kind. The last record counts. -/
def assign (t : Table) (o : ObjectId) (a : Assignment) : Outcome Unit :=
  if (t.object o).kind = a.kind then
    .accepted () (t.modifyObject o (·.assign a)) []
  else
    .refused (t.mismatch o (.kind a.kind)) t

/-- What has been recorded, or the complaint that nothing has been yet. -/
def recorded {α : Type} (t : Table) (o : ObjectId) : Option α → Except SemanticError α
  | some found => .ok found
  | none => .error (.unresolvedDeclaration (t.name o))

/-- The value of a constant. -/
def constantValue (t : Table) (o : ObjectId) : Except SemanticError Literal :=
  match (t.object o).attributes with
  | .constant value => t.recorded o value
  | _ => .error (t.mismatch o (.kind .constant))

/-- The type of a variable or parameter, or the type that an alias stands for. -/
def declaredType (t : Table) (o : ObjectId) : Except SemanticError Ty :=
  match (t.object o).attributes with
  | .alias ty | .var ty _ | .parameter ty _ _ => t.recorded o ty
  | _ => .error (t.mismatch o .typedDeclaration)

/-- The type of a function's result. -/
def returnType (t : Table) (o : ObjectId) : Except SemanticError Ty :=
  match (t.object o).attributes with
  | .function _ result _ => t.recorded o result
  | _ => .error (t.mismatch o (.kind .function))

/-- The parameters of a routine, in the order of their declaration. -/
def params (t : Table) (o : ObjectId) : Except SemanticError (List ObjectId) :=
  match (t.object o).params? with
  | some params => .ok params
  | none => .error (t.mismatch o .routine)

/-- The scope of a program's or routine's own declarations. -/
def bodyScope (t : Table) (o : ObjectId) : Except SemanticError ScopeId :=
  match (t.object o).body? with
  | some body => .ok body
  | none => .error (t.mismatch o .block)

/-- Make `s` the current scope. It has to be nested directly in the scope that is
current so far, and the bodies of predeclared routines are closed for good. -/
def enter (t : Table) (s : ScopeId) : Outcome Unit :=
  let owner := (t.scope s).owner
  if owner ∈ t.globals then
    .refused (.sealedScope (t.name owner)) t
  else if (t.scope s).outer ≠ t.current then
    .refused .unbalancedBlock t
  else
    .accepted () { t with current := some s } [.entered (t.name owner) s]

/-- Return to the scope around the current one. Outside the outermost scope there is
no current scope. -/
def exit (t : Table) : Outcome Unit :=
  match t.current with
  | none => .refused (.noCurrentScope .exitBlock) t
  | some s =>
    let left := t.scope s
    .accepted () { t with current := left.outer } [.exited (t.name left.owner) s]

/-- Let the owner of `s` list `o` among its parameters, if `o` is a parameter and the
owner a routine. -/
def listParam (t : Table) (s : ScopeId) (o : ObjectId) : Table :=
  if (t.object o).kind = .parameter then
    t.modifyObject (t.scope s).owner (·.addParam o)
  else t

/-- Put `o` at the end of the declarations of `s`, which holds it from now on. -/
def enlist (t : Table) (s : ScopeId) (o : ObjectId) : Table :=
  ((t.listParam s o).modifyScope s (·.add o)).modifyObject o (·.register)

/-- What the declaration of `o` in `s` reports. A parameter is out of place where the
owner of the scope has no parameter list. -/
def declarationLog (t : Table) (s : ScopeId) (o : ObjectId) : List Event :=
  let declared := t.object o
  let host := t.object (t.scope s).owner
  let stray :=
    if declared.kind = .parameter ∧ host.kind.isRoutine = false then
      [Event.strayParameter declared.name host.kind]
    else []
  stray ++ [.declared declared.kind declared.name host.name]

/-- Declare `o` in the current scope. An object is declared once at most. -/
def declare (t : Table) (o : ObjectId) : Outcome Unit :=
  match t.current with
  | none => .refused (.noCurrentScope .declareObject) t
  | some s =>
    if (t.object o).registered then
      .refused (.alreadyDeclared (t.name o)) t
    else
      .accepted () (t.enlist s o) (t.declarationLog s o)

/-- Put `o` into an existing position of a scope's list behind the back of the
declaration protocol: nothing is registered and no parameter list changes. -/
def overwriteSlot (t : Table) (s : ScopeId) (slot : Nat) (o : ObjectId) : Table :=
  t.modifyScope s (·.setSlot slot o)

/-- Exchange the body of a program or routine behind the back of the declaration
protocol. The new body keeps its owner. -/
def overwriteBody (t : Table) (o : ObjectId) (s : ScopeId) : Table :=
  t.modifyObject o (·.setBody s)

end BlockScope.Table
