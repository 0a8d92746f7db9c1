import BlockScope.Declarations
import BlockScope.Table.Lookup
import BlockScope.Table.Create

namespace BlockScope

/-- A request that may change a table. -/
inductive Command where
  | create (blueprint : Blueprint) (name : String)
  | createScope (owner : ObjectId) (outer : Option ScopeId)
  | assign (o : ObjectId) (assignment : Assignment)
  | enter (s : ScopeId)
  | exit
  | declare (o : ObjectId)
  | loadReference
deriving DecidableEq, Repr

/-- A question about a table. -/
inductive Query where
  | constantValue (o : ObjectId)
  | declaredType (o : ObjectId)
  | returnType (o : ObjectId)
  | params (o : ObjectId)
  | bodyScope (o : ObjectId)
  | scope (s : ScopeId)
  | find (list : List ObjectId) (name : String)
  | findIn (s : ScopeId) (name : String)
  | findGlobal (name : String)
  | lookup (name : String)
  | checkFresh (name : String)
  | checkDeclared (name : String)
  | checkKind (kind : Kind) (name : String)
  | checkLValue (name : String)
deriving DecidableEq, Repr

/-- One step of a session with a table. -/
inductive Step where
  | command (c : Command)
  | query (q : Query)
deriving DecidableEq, Repr

/-- The answer to an accepted step. -/
inductive Reply where
  | done
  | object (o : ObjectId)
  | scopeId (s : ScopeId)
  | found (o : Option ObjectId)
  | objects (list : List ObjectId)
  | scope (s : Scope)
  | literal (value : Literal)
  | ty (ty : Ty)
deriving DecidableEq, Repr

namespace Table

def perform (t : Table) : Command → Outcome Reply
  | .create blueprint name => (t.create blueprint name).map .object
  | .createScope owner outer => (t.createScope owner outer).map .scopeId
  | .assign o assignment => (t.assign o assignment).map fun _ => .done
  | .enter s => (t.enter s).map fun _ => .done
  | .exit => t.exit.map fun _ => .done
  | .declare o => (t.declare o).map fun _ => .done
  | .loadReference => (Program.reference.load t).map .object

def answer (t : Table) : Query → Except SemanticError Reply
  | .constantValue o => (t.constantValue o).map .literal
  | .declaredType o => (t.declaredType o).map .ty
  | .returnType o => (t.returnType o).map .ty
  | .params o => (t.params o).map .objects
  | .bodyScope o => (t.bodyScope o).map .scopeId
  | .scope s => .ok (.scope (t.scope s))
  | .find list name => .ok (.found (t.find? list name))
  | .findIn s name => .ok (.found (t.findIn? s name))
  | .findGlobal name => .ok (.found (t.find? t.globals name))
  | .lookup name => .ok (.found (t.lookup? name))
  | .checkFresh name => (t.checkFresh name).map fun _ => .done
  | .checkDeclared name => (t.checkDeclared name).map .object
  | .checkKind kind name => (t.checkKind kind name).map .object
  | .checkLValue name => (t.checkLValue name).map .object

def step (t : Table) : Step → Outcome Reply
  | .command c => t.perform c
  | .query q => .ofAnswer (t.answer q) t

/-- The outcomes of the steps of a session, each taken on the table that the steps before
it left. A refused step does not end the session. -/
def outcomes (t : Table) : List Step → List (Outcome Reply)
  | [] => []
  | s :: steps => t.step s :: (t.step s).table.outcomes steps

/-- The table after a session. -/
def after (t : Table) (steps : List Step) : Table :=
  steps.foldl (fun t s => (t.step s).table) t

end Table

end BlockScope
