namespace BlockScope

/-- A type of the declared language. The size of an array is kept as it was
written, whether or not an array of that size could exist. -/
inductive Ty where
  | int
  | char
  | array (size : Int32) (element : Ty)
deriving DecidableEq, Repr, Inhabited

/-- The outermost shape of a type. -/
inductive TyClass where
  | int
  | char
  | array
deriving DecidableEq, Repr

def TyClass.text : TyClass → String
  | int => "Int"
  | char => "Char"
  | array => "Arr"

namespace Ty

/-- The array over `base` whose sizes are `sizes`, outermost first. -/
def nested (sizes : List Int32) (base : Ty) : Ty :=
  sizes.foldr array base

def classOf : Ty → TyClass
  | int => .int
  | char => .char
  | array .. => .array

/-- The types without an element type. -/
def isBasic : Ty → Bool
  | int | char => true
  | array .. => false

def size? : Ty → Option Int32
  | array size _ => some size
  | _ => none

def element? : Ty → Option Ty
  | array _ element => some element
  | _ => none

/-- One node for each array level and one for the base type. -/
def nodeCount : Ty → Nat
  | int | char => 1
  | array _ element => 1 + element.nodeCount

/-- Structural agreement: two arrays agree when their sizes are equal and their
element types agree, and types of different classes never do. -/
def agrees : Ty → Ty → Bool
  | int, int => true
  | char, char => true
  | array size element, array size' element' => size == size' && element.agrees element'
  | _, _ => false

/-- The same type, built anew from its base outward. -/
def copy : Ty → Ty
  | int => int
  | char => char
  | array size element => array size element.copy

def text : Ty → String
  | int => "Int"
  | char => "Char"
  | array size element => "Arr(" ++ toString size.toInt ++ "," ++ element.text ++ ")"

end Ty

/-- The value of a constant declaration. -/
inductive Literal where
  | int (value : Int32)
  | char (value : Char)
deriving DecidableEq, Repr

namespace Literal

def ty : Literal → Ty
  | int _ => .int
  | char _ => .char

/-- Integers are written in decimal; a character stands between single quotes as
it is, whatever it is. -/
def text : Literal → String
  | int value => toString value.toInt
  | char value => "'" ++ String.singleton value ++ "'"

end Literal

end BlockScope
