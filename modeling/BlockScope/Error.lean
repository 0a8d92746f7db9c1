import BlockScope.Object

namespace BlockScope

/-- What a place in a program asks of the name that stands there. -/
inductive Role where
  | kind (kind : Kind)
  | identifier
  | lvalue
  | typedDeclaration
  | routine
  | block
deriving DecidableEq, Repr

def Role.word : Role → String
  | kind k => k.word
  | identifier => "identifier"
  | lvalue => "an l-value"
  | typedDeclaration => "typed declaration"
  | routine => "function or procedure"
  | block => "program, function or procedure"

/-- What a place in a program asks of a type. -/
inductive TyDemand where
  | ofClass (tyClass : TyClass)
  | basic
  | exactly (ty : Ty)
deriving DecidableEq, Repr

namespace TyDemand

def text : TyDemand → String
  | ofClass c => c.text
  | basic => "Int or Char"
  | exactly ty => ty.text

def accepts : TyDemand → Ty → Bool
  | ofClass c, ty => ty.classOf == c
  | basic, ty => ty.isBasic
  | exactly expected, ty => expected.agrees ty

end TyDemand

/-- The operations that need an entered block. -/
inductive BlockOperation where
  | exitBlock
  | declareObject
  | declareParameter
  | checkFresh
deriving DecidableEq, Repr

def BlockOperation.word : BlockOperation → String
  | exitBlock => "exit_block"
  | declareObject => "declare_object"
  | declareParameter => "declare_parameter"
  | checkFresh => "check_fresh_ident"

/-- Why an operation on a table or a check was refused. -/
inductive SemanticError where
  | identTooLong (name : String) (max : Nat)
  | programAlreadyDefined (name : String)
  | noCurrentScope (operation : BlockOperation)
  | unbalancedBlock
  | sealedScope (name : String)
  | alreadyDeclared (name : String)
  | kindMismatch (name : String) (expected : Role) (found : Kind)
  | unresolvedDeclaration (name : String)
  | duplicateIdent (name : String)
  | undeclared (sought : Role) (name : String)
  | invalidKind (name : String) (expected : Role)
  | typeInconsistency (expected : TyDemand) (found : Ty)
  | ownershipViolation (name : String)
deriving DecidableEq, Repr

def SemanticError.message : SemanticError → String
  | identTooLong name max =>
    "identifier '" ++ name ++ "' exceeds " ++ toString max ++ " characters"
  | programAlreadyDefined name => "program object already defined as '" ++ name ++ "'"
  | noCurrentScope operation =>
    "no current scope: " ++ operation.word ++ " requires an entered block"
  | unbalancedBlock => "cannot enter a block that is not nested in the current scope"
  | sealedScope name => "built-in routine '" ++ name ++ "' cannot be extended"
  | alreadyDeclared name => "object '" ++ name ++ "' is already declared in a scope"
  | kindMismatch name expected found =>
    "'" ++ name ++ "' is a " ++ found.word ++ ", expected " ++ expected.word
  | unresolvedDeclaration name => "use of not-yet-typed declaration '" ++ name ++ "'"
  | duplicateIdent name => "duplicate identifier '" ++ name ++ "'"
  | undeclared sought name => "undeclared " ++ sought.word ++ " '" ++ name ++ "'"
  | invalidKind name expected => "'" ++ name ++ "' cannot be used as " ++ expected.word
  | typeInconsistency expected found =>
    "type inconsistency: expected " ++ expected.text ++ ", found " ++ found.text
  | ownershipViolation name =>
    "ownership violation: object '" ++ name ++ "' is reachable from more than one owner"

end BlockScope
