import BlockScope.Table.Basic

namespace BlockScope

/-- Refuse a type that is not what was asked for. -/
def TyDemand.check (demand : TyDemand) (ty : Ty) : Except SemanticError Unit :=
  if demand.accepts ty then .ok () else .error (.typeInconsistency demand ty)

namespace Table

/-- The first object of a list that has the name. -/
def find? (t : Table) (list : List ObjectId) (name : String) : Option ObjectId :=
  list.find? fun o => t.name o == name

/-- The first object declared in `s` itself that has the name. -/
def findIn? (t : Table) (s : ScopeId) (name : String) : Option ObjectId :=
  t.find? (t.scope s).objects name

/-- The first `length` scopes from `s` outward. -/
def outward (t : Table) : (length : Nat) → (s : Option ScopeId) → List ScopeId
  | 0, _ => []
  | _ + 1, none => []
  | length + 1, some s => s :: t.outward length (t.scope s).outer

/-- The scopes that have been entered and not left, innermost first. The scope around a
scope is older than it, so there are no more of them than scopes in the table. -/
def chain (t : Table) : List ScopeId :=
  t.outward t.scopes.size t.current

/-- The object that the name means in the current scope: the innermost one on the chain
that has the name, else the predeclared one. -/
def lookup? (t : Table) (name : String) : Option ObjectId :=
  (t.chain.findSome? fun s => t.findIn? s name).or (t.find? t.globals name)

/-- The name is not declared in the current scope yet. Scopes around it do not matter. -/
def checkFresh (t : Table) (name : String) : Except SemanticError Unit :=
  match t.current with
  | none => .error (.noCurrentScope .checkFresh)
  | some s =>
    match t.findIn? s name with
    | some _ => .error (.duplicateIdent name)
    | none => .ok ()

/-- What the name means, for a place that asks for `role`. -/
def resolve (t : Table) (role : Role) (name : String) : Except SemanticError ObjectId :=
  match t.lookup? name with
  | some o => .ok o
  | none => .error (.undeclared role name)

def checkDeclared (t : Table) (name : String) : Except SemanticError ObjectId :=
  t.resolve .identifier name

/-- The name means an object of the kind. -/
def checkKind (t : Table) (kind : Kind) (name : String) : Except SemanticError ObjectId := do
  let o ← t.resolve (.kind kind) name
  if (t.object o).kind = kind then .ok o else .error (.invalidKind name (.kind kind))

/-- The object may be assigned to: a variable, a parameter, or the function whose body
is the current scope, for an assignment to it sets its result. -/
def isAssignable (t : Table) (o : ObjectId) : Bool :=
  match (t.object o).kind with
  | .var | .parameter => true
  | .function => t.current.any fun s => (t.scope s).owner == o
  | _ => false

/-- The name means an object that may be assigned to. -/
def checkLValue (t : Table) (name : String) : Except SemanticError ObjectId := do
  let o ← t.resolve .identifier name
  if t.isAssignable o then .ok o else .error (.invalidKind name .lvalue)

end Table

end BlockScope
