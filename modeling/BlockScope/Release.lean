import BlockScope.Table.Create

namespace BlockScope

/-- A thing that is owned: an object, or a scope. -/
inductive Node where
  | object (o : ObjectId)
  | scope (s : ScopeId)
deriving DecidableEq, Repr

namespace Table

/-- What the owner of a node is answerable for once it is gone: an object owns its body,
and a scope the objects declared in it. Parameter lists and the links back to owners and
outer scopes do not own anything. -/
def owned (t : Table) : Node → List Node
  | .object o => ((t.object o).body?.map Node.scope).toList
  | .scope s => (t.scope s).objects.map Node.object

/-- Where ownership starts: the program, then the predeclared routines. -/
def roots (t : Table) : List Node :=
  (t.program.toList ++ t.globals).map Node.object

/-- Every object and every scope of the table. -/
def nodes (t : Table) : List Node :=
  (List.range t.objects.size).map (fun i => .object ⟨i⟩) ++
    (List.range t.scopes.size).map (fun i => .scope ⟨i⟩)

/-- The name by which a complaint about a node calls it. A scope goes by the name of its
owner. -/
def nodeName (t : Table) : Node → String
  | .object o => t.name o
  | .scope s => t.name (t.scope s).owner

end Table

/-- The outcome of a walk that met no node twice: what it reached, each node before
what it owns, and what is left over. -/
structure Sweep where
  reached : List Node
  unreached : List Node
deriving DecidableEq, Repr

namespace Table

/-- Walk in preorder through the nodes of `pending` and all that they own. `unreached`
holds the nodes not met so far, and each step takes one of them. The walk stops at the
first node that is met again. -/
def sweepFrom (t : Table) (unreached pending : List Node) : Except Node Sweep :=
  match pending with
  | [] => .ok ⟨[], unreached⟩
  | n :: rest =>
    if n ∈ unreached then
      (t.sweepFrom (unreached.erase n) (t.owned n ++ rest)).map fun sweep =>
        { sweep with reached := n :: sweep.reached }
    else
      .error n
termination_by unreached.length
decreasing_by
  rename_i hmem
  have hpos := List.length_pos_of_mem hmem
  rw [List.length_erase_of_mem hmem]
  omega

/-- Walk through everything that the roots own. -/
def sweep (t : Table) : Except Node Sweep :=
  t.sweepFrom t.nodes t.roots

end Table

/-- What a table released at its end. Orphans are the objects and scopes that nothing
owned. -/
structure Report where
  objects : Nat
  scopes : Nat
  typeNodes : Nat
  constants : Nat
  orphanObjects : Nat
  orphanScopes : Nat
deriving DecidableEq, Repr

namespace Node

def isObject : Node → Bool
  | object _ => true
  | scope _ => false

def isScope : Node → Bool
  | object _ => false
  | scope _ => true

end Node

namespace Table

/-- The nodes of the types that go with a node: those of the type written at an object's
declaration. -/
def typeNodes (t : Table) : Node → Nat
  | .object o => ((t.object o).attributes.ty?.map Ty.nodeCount).getD 0
  | .scope _ => 0

/-- The node is a constant with a value. -/
def isValued (t : Table) : Node → Bool
  | .object o => (t.object o).attributes.value?.isSome
  | .scope _ => false

/-- Count what a walk reached and what it left. The types of the table itself are
released too. -/
def report (t : Table) (sweep : Sweep) : Report where
  objects := sweep.reached.countP Node.isObject
  scopes := sweep.reached.countP Node.isScope
  typeNodes := (sweep.reached.map t.typeNodes ++ sharedTypes.map Ty.nodeCount).foldr (· + ·) 0
  constants := sweep.reached.countP t.isValued
  orphanObjects := sweep.unreached.countP Node.isObject
  orphanScopes := sweep.unreached.countP Node.isScope

/-- Release the table. It is refused if something has more than one owner. -/
def release (t : Table) : Except SemanticError Report :=
  match t.sweep with
  | .ok sweep => .ok (t.report sweep)
  | .error n => .error (.ownershipViolation (t.nodeName n))

end Table

namespace Report

/-- What a release reports: objects that were lost, if any, then the counts. -/
def log (r : Report) : List Event :=
  (if 0 < r.orphanObjects then [Event.orphaned r.orphanObjects] else []) ++
    [.released r.objects r.scopes r.typeNodes r.constants]

end Report

/-- What the release of the table reports. A refused one reports nothing. -/
def Table.releaseLog (t : Table) : List Event :=
  match t.release with
  | .ok report => report.log
  | .error _ => []

end BlockScope
