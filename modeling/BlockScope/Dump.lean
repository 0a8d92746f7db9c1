import BlockScope.Table.Basic

namespace BlockScope

/-- An ordered forest: the root of the first tree, what is below that root, and the
trees after the first. -/
inductive Forest (α : Type) where
  | nil
  | cons (root : α) (below after : Forest α)
deriving DecidableEq, Repr

namespace Forest

variable {α β : Type}

def map (f : α → β) : Forest α → Forest β
  | nil => nil
  | cons root below after => cons (f root) (below.map f) (after.map f)

/-- The nodes in preorder: each before those below it, and those before the next tree. -/
def preorder : Forest α → List α
  | nil => []
  | cons root below after => root :: (below.preorder ++ after.preorder)

/-- The nodes in preorder, each with its depth. The roots have the depth `depth`. -/
def outline (depth : Nat) : Forest α → List (Nat × α)
  | nil => []
  | cons root below after =>
    (depth, root) :: (below.outline (depth + 1) ++ after.outline depth)

end Forest

/-- What one line of a dump shows of an object. -/
inductive Heading where
  | program (name : String)
  | constant (name : String) (value : Option Literal)
  | alias (name : String) (actual : Option Ty)
  | var (name : String) (ty : Option Ty)
  | function (name : String) (result : Option Ty)
  | procedure (name : String)
  | parameter (name : String) (mode : ParamMode) (ty : Option Ty)
deriving DecidableEq, Repr

def Object.heading (o : Object) : Heading :=
  match o.attributes with
  | .program _ => .program o.name
  | .constant value => .constant o.name value
  | .alias actual => .alias o.name actual
  | .var ty _ => .var o.name ty
  | .function _ result _ => .function o.name result
  | .procedure .. => .procedure o.name
  | .parameter ty mode _ => .parameter o.name mode ty

namespace Heading

/-- A question mark stands for a type or value that has not been recorded. -/
def orUnknown : Option String → String
  | some text => text
  | none => "?"

def text : Heading → String
  | .program name => "Program " ++ name
  | .constant name value => "Const " ++ name ++ " = " ++ orUnknown (value.map Literal.text)
  | .alias name actual => "Type " ++ name ++ " = " ++ orUnknown (actual.map Ty.text)
  | .var name ty => "Var " ++ name ++ " : " ++ orUnknown (ty.map Ty.text)
  | .function name result => "Function " ++ name ++ " : " ++ orUnknown (result.map Ty.text)
  | .procedure name => "Procedure " ++ name
  | .parameter name .byValue ty => "Param " ++ name ++ " : " ++ orUnknown (ty.map Ty.text)
  | .parameter name .byReference ty =>
    "Param VAR " ++ name ++ " : " ++ orUnknown (ty.map Ty.text)

end Heading

/-- The spaces by which a body stands to the right of its owner. -/
def indentStep : Nat :=
  4

/-- One line of a dump, moved to the right by `indent` spaces. -/
def Heading.line (indent : Nat) (h : Heading) : String :=
  String.ofList (List.replicate indent ' ') ++ h.text ++ "\n"

/-- The lines of a forest of headings in preorder, its roots moved to the right by `indent`
spaces. -/
def Forest.render (indent : Nat) (f : Forest Heading) : String :=
  String.join ((f.outline 0).map fun (depth, h) => h.line (indent + indentStep * depth))

namespace Table

/-- The objects declared in the body of `o`. -/
def contents (t : Table) (o : ObjectId) : List ObjectId :=
  match (t.object o).body? with
  | some body => (t.scope body).objects
  | none => []

/-- The objects of a list, each with the objects in its body below it and so on, if
bodies are nested at most `depth` deep. -/
def unfold (t : Table) : (depth : Nat) → List ObjectId → Option (Forest ObjectId)
  | 0, list => if list.isEmpty then some .nil else none
  | depth + 1, list =>
    list.foldr
      (fun o after => do return .cons o (← t.unfold depth (t.contents o)) (← after))
      (some .nil)

/-- The objects of a list with all that is nested in them. There is no such forest only
if an object is nested in itself, for otherwise no nesting is deeper than the number of
objects. -/
def forest? (t : Table) (list : List ObjectId) : Option (Forest ObjectId) :=
  t.unfold t.objects.size list

/-- The dump of a list of objects, each followed by what is nested in it. An object that
is nested in itself has none. -/
def dumpList? (t : Table) (list : List ObjectId) (indent : Nat) : Option String :=
  (t.forest? list).map fun f => (f.map fun o => (t.object o).heading).render indent

def dumpObject? (t : Table) (o : ObjectId) (indent : Nat) : Option String :=
  t.dumpList? [o] indent

def dumpScope? (t : Table) (s : ScopeId) (indent : Nat) : Option String :=
  t.dumpList? (t.scope s).objects indent

/-- The dump of the program, which is empty as long as there is none. -/
def dumpProgram? (t : Table) : Option String :=
  t.dumpList? t.program.toList 0

/-- The dump of the predeclared routines. -/
def dumpGlobals? (t : Table) : Option String :=
  t.dumpList? t.globals 0

end Table

end BlockScope
