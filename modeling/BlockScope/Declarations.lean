import BlockScope.Table.Change
import BlockScope.Table.Create

namespace BlockScope

/-- The declarations of a block, in order. Each comes with those that follow it, and a
routine also with the declarations of its body. -/
inductive Declarations where
  | done
  | constant (name : String) (value : Literal) (rest : Declarations)
  | alias (name : String) (actual : Ty) (rest : Declarations)
  | var (name : String) (ty : Ty) (rest : Declarations)
  | parameter (name : String) (mode : ParamMode) (ty : Ty) (rest : Declarations)
  | function (name : String) (result : Ty) (body rest : Declarations)
  | procedure (name : String) (body rest : Declarations)
deriving DecidableEq, Repr

namespace Table

/-- Create an object, record its type or value and declare it in the current scope. -/
def introduce (t : Table) (b : Blueprint) (name : String) (a : Assignment) : Outcome ObjectId :=
  (t.create b name).andThen fun o t =>
  (t.assign o a).andThen fun _ t =>
  (t.declare o).andThen fun _ t => .accepted o t []

/-- The parameter belongs to the routine whose body is current. -/
def introduceParam (t : Table) (name : String) (mode : ParamMode) (ty : Ty) : Outcome ObjectId :=
  match t.current with
  | none => .refused (.noCurrentScope .declareParameter) t
  | some s => t.introduce (.parameter mode (t.scope s).owner) name (.parameter ty)

/-- Create a procedure, which has no type to record, and declare it. -/
def introduceProcedure (t : Table) (name : String) : Outcome ObjectId :=
  (t.create .procedure name).andThen fun o t =>
  (t.declare o).andThen fun _ t => .accepted o t []

def enterBody (t : Table) (o : ObjectId) : Outcome Unit :=
  match t.bodyScope o with
  | .ok body => t.enter body
  | .error e => .refused e t

end Table

namespace Declarations

/-- Make the declarations in the current scope, and those of each routine in its body,
which is entered for them and left again. The first refusal ends it all. -/
def load : Declarations → Table → Outcome Unit
  | .done, t => .accepted () t []
  | .constant name value rest, t =>
    (t.introduce .constant name (.constant value)).andThen fun _ t => rest.load t
  | .alias name actual rest, t =>
    (t.introduce .alias name (.alias actual)).andThen fun _ t => rest.load t
  | .var name ty rest, t =>
    (t.introduce .var name (.var ty)).andThen fun _ t => rest.load t
  | .parameter name mode ty rest, t =>
    (t.introduceParam name mode ty).andThen fun _ t => rest.load t
  | .function name result body rest, t =>
    (t.introduce .function name (.function result)).andThen fun o t =>
    (t.enterBody o).andThen fun _ t =>
    (body.load t).andThen fun _ t =>
    t.exit.andThen fun _ t => rest.load t
  | .procedure name body rest, t =>
    (t.introduceProcedure name).andThen fun o t =>
    (t.enterBody o).andThen fun _ t =>
    (body.load t).andThen fun _ t =>
    t.exit.andThen fun _ t => rest.load t

end Declarations

/-- A program without its statements. -/
structure Program where
  name : String
  block : Declarations
deriving DecidableEq, Repr

/-- Create the program, make its declarations in its body and leave it. -/
def Program.load (p : Program) (t : Table) : Outcome ObjectId :=
  (t.create .program p.name).andThen fun o t =>
  (t.enterBody o).andThen fun _ t =>
  (p.block.load t).andThen fun _ t =>
  t.exit.andThen fun _ t => .accepted o t []

/-- The declarations of the reference function `f`. -/
def referenceFunction : Declarations :=
  .parameter "p1" .byValue .int <|
  .parameter "p2" .byReference .char <|
  .done

/-- The declarations of the reference procedure `p`, four of which hide names of the
program around it. -/
def referenceProcedure : Declarations :=
  .parameter "v1" .byValue .int <|
  .constant "c1" (.char 'a') <|
  .constant "c3" (.int 10) <|
  .alias "t1" .int <|
  .alias "t2" (.array 10 .int) <|
  .var "v2" (.array 10 .int) <|
  .var "v3" .char <|
  .done

/-- A small program with every kind of object, nested scopes and hidden names. -/
def Program.reference : Program where
  name := "PRG"
  block :=
    .constant "c1" (.int 10) <|
    .constant "c2" (.char 'a') <|
    .alias "t1" (.array 10 .int) <|
    .var "v1" .int <|
    .var "v2" (.array 10 (.array 10 .int)) <|
    .function "f" .int referenceFunction <|
    .procedure "p" referenceProcedure <|
    .done

end BlockScope
