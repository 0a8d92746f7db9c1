import BlockScope.Ty

namespace BlockScope

/-- The place of an object in its table. Objects are numbered from zero in the
order of their creation. -/
structure ObjectId where
  index : Nat
deriving DecidableEq, Repr, Inhabited

/-- The place of a scope in its table. Scopes are numbered from zero in the
order of their creation, independently of the objects. -/
structure ScopeId where
  index : Nat
deriving DecidableEq, Repr, Inhabited

/-- The kinds of declarable things. -/
inductive Kind where
  | program
  | constant
  | alias
  | var
  | function
  | procedure
  | parameter
deriving DecidableEq, Repr

namespace Kind

def word : Kind → String
  | .program => "program"
  | .constant => "constant"
  | .alias => "type"
  | .var => "variable"
  | .function => "function"
  | .procedure => "procedure"
  | .parameter => "parameter"

/-- Functions and procedures: the kinds that have a parameter list. -/
def isRoutine : Kind → Bool
  | function | procedure => true
  | _ => false

/-- The kinds that open a scope of their own. -/
def hasBody : Kind → Bool
  | program | function | procedure => true
  | _ => false

end Kind

/-- How an argument is passed to a parameter. -/
inductive ParamMode where
  | byValue
  | byReference
deriving DecidableEq, Repr

/-- What is known of an object beyond its name. A type or value that has not been
recorded yet is `none`. Only `body` leads to things that the object owns: a
parameter list repeats objects of the body scope, and `home` and `owner` point
back to where the object came from. -/
inductive Attributes where
  | program (body : ScopeId)
  | constant (value : Option Literal)
  | alias (actual : Option Ty)
  | var (ty : Option Ty) (home : Option ScopeId)
  | function (params : List ObjectId) (result : Option Ty) (body : ScopeId)
  | procedure (params : List ObjectId) (body : ScopeId)
  | parameter (ty : Option Ty) (mode : ParamMode) (owner : ObjectId)
deriving DecidableEq, Repr

/-- A type or value to record on an object, named for the kind that takes it. -/
inductive Assignment where
  | constant (value : Literal)
  | alias (actual : Ty)
  | var (ty : Ty)
  | function (result : Ty)
  | parameter (ty : Ty)
deriving DecidableEq, Repr

def Assignment.kind : Assignment → Kind
  | .constant _ => .constant
  | .alias _ => .alias
  | .var _ => .var
  | .function _ => .function
  | .parameter _ => .parameter

namespace Attributes

def kind : Attributes → Kind
  | .program .. => .program
  | .constant .. => .constant
  | .alias .. => .alias
  | .var .. => .var
  | .function .. => .function
  | .procedure .. => .procedure
  | .parameter .. => .parameter

def body? : Attributes → Option ScopeId
  | program body | function _ _ body | procedure _ body => some body
  | _ => none

def params? : Attributes → Option (List ObjectId)
  | function params _ _ | procedure params _ => some params
  | _ => none

def mode? : Attributes → Option ParamMode
  | parameter _ mode _ => some mode
  | _ => none

/-- The type written at the declaration, of whichever kind it is. -/
def ty? : Attributes → Option Ty
  | .alias ty | .var ty _ | .function _ ty _ | .parameter ty _ _ => ty
  | .program .. | .constant .. | .procedure .. => none

def value? : Attributes → Option Literal
  | constant value => value
  | _ => none

/-- Record an assignment of the same kind, over whatever was recorded before.
Assignments of another kind change nothing. -/
def assign : Attributes → Assignment → Attributes
  | .constant _, .constant value => .constant (some value)
  | .alias _, .alias actual => .alias (some actual)
  | .var _ home, .var ty => .var (some ty) home
  | .function params _ body, .function result => .function params (some result) body
  | .parameter _ mode owner, .parameter ty => .parameter (some ty) mode owner
  | attributes, _ => attributes

/-- Put `o` at the end of a routine's parameter list. Other kinds have none. -/
def addParam (o : ObjectId) : Attributes → Attributes
  | function params result body => function (params ++ [o]) result body
  | procedure params body => procedure (params ++ [o]) body
  | attributes => attributes

/-- Give an object with a body the body `s`. Other kinds have none. -/
def setBody (s : ScopeId) : Attributes → Attributes
  | program _ => program s
  | function params result _ => function params result s
  | procedure params _ => procedure params s
  | attributes => attributes

end Attributes

/-- A declarable thing. It is `registered` once a container holds it: a scope, the
list of predeclared objects, or the table itself for the program. -/
structure Object where
  name : String
  attributes : Attributes
  registered : Bool
deriving DecidableEq, Repr

instance : Inhabited Object := ⟨"", .constant none, false⟩

namespace Object

def kind (o : Object) : Kind :=
  o.attributes.kind

def body? (o : Object) : Option ScopeId :=
  o.attributes.body?

def params? (o : Object) : Option (List ObjectId) :=
  o.attributes.params?

def assign (a : Assignment) (o : Object) : Object :=
  { o with attributes := o.attributes.assign a }

def addParam (p : ObjectId) (o : Object) : Object :=
  { o with attributes := o.attributes.addParam p }

def setBody (s : ScopeId) (o : Object) : Object :=
  { o with attributes := o.attributes.setBody s }

def register (o : Object) : Object :=
  { o with registered := true }

end Object

/-- The declarations of one block, in the order in which they were made, with the
object whose block it is and the scope around it. -/
structure Scope where
  objects : List ObjectId
  owner : ObjectId
  outer : Option ScopeId
deriving DecidableEq, Repr, Inhabited

namespace Scope

def add (o : ObjectId) (s : Scope) : Scope :=
  { s with objects := s.objects ++ [o] }

/-- Put `o` into an existing position of the list. -/
def setSlot (slot : Nat) (o : ObjectId) (s : Scope) : Scope :=
  { s with objects := s.objects.set slot o }

end Scope

end BlockScope
