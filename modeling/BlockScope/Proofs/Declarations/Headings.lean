import BlockScope.Declarations
import BlockScope.Dump
import BlockScope.Proofs.Table.Additions

namespace BlockScope

namespace Heading

def kind : Heading → Kind
  | program _ => .program
  | constant .. => .constant
  | .alias .. => .alias
  | var .. => .var
  | function .. => .function
  | procedure _ => .procedure
  | parameter .. => .parameter

def name : Heading → String
  | program name | constant name _ | .alias name _ | var name _ | function name _
  | procedure name | parameter name _ _ => name

end Heading

theorem Object.kind_heading (o : Object) : o.heading.kind = o.kind := by
  unfold Object.heading Object.kind
  cases o.attributes <;> rfl

theorem Object.name_heading (o : Object) : o.heading.name = o.name := by
  unfold Object.heading
  cases o.attributes <;> rfl

def Forest.roots {α : Type} : Forest α → List α
  | nil => []
  | cons root _ after => root :: after.roots

theorem Forest.map_congr {α β : Type} {g g' : α → β} {f : Forest α}
    (h : ∀ a ∈ f.preorder, g a = g' a) : f.map g = f.map g' := by
  induction f with
  | nil => rfl
  | cons root below after ihBelow ihAfter =>
    obtain ⟨hroot, hlater⟩ := List.forall_mem_cons.mp h
    obtain ⟨hbelow, hafter⟩ := List.forall_mem_append.mp hlater
    rw [map, map, hroot, ihBelow hbelow, ihAfter hafter]

namespace Declarations

/-- The headings of the objects that the declarations make, in the order of their creation. A
routine comes before the objects of its body. -/
def headings : Declarations → List Heading
  | .done => []
  | .constant name value rest => .constant name (some value) :: rest.headings
  | .alias name actual rest => .alias name (some actual) :: rest.headings
  | .var name ty rest => .var name (some ty) :: rest.headings
  | .parameter name mode ty rest => .parameter name mode (some ty) :: rest.headings
  | .function name result body rest =>
    .function name (some result) :: (body.headings ++ rest.headings)
  | .procedure name body rest => .procedure name :: (body.headings ++ rest.headings)

/-- The headings of the declarations, with those of its block below that of a routine. -/
def forest : Declarations → Forest Heading
  | .done => .nil
  | .constant name value rest => .cons (.constant name (some value)) .nil rest.forest
  | .alias name actual rest => .cons (.alias name (some actual)) .nil rest.forest
  | .var name ty rest => .cons (.var name (some ty)) .nil rest.forest
  | .parameter name mode ty rest => .cons (.parameter name mode (some ty)) .nil rest.forest
  | .function name result body rest =>
    .cons (.function name (some result)) body.forest rest.forest
  | .procedure name body rest => .cons (.procedure name) body.forest rest.forest

theorem preorder_forest (d : Declarations) : d.forest.preorder = d.headings := by
  induction d with
  | done => rfl
  | constant name value rest ih => exact congrArg _ ih
  | «alias» name actual rest ih => exact congrArg _ ih
  | var name ty rest ih => exact congrArg _ ih
  | parameter name mode ty rest ih => exact congrArg _ ih
  | function name result body rest ihBody ihRest =>
    simp [forest, headings, Forest.preorder, ihBody, ihRest]
  | procedure name body rest ihBody ihRest =>
    simp [forest, headings, Forest.preorder, ihBody, ihRest]

end Declarations

/-- The headings of the program itself and of all that is declared in it. -/
def Program.headings (p : Program) : List Heading :=
  .program p.name :: p.block.headings

/-- The heading of the program, with those of its declarations below it. -/
def Program.forest (p : Program) : Forest Heading :=
  .cons (.program p.name) p.block.forest .nil

theorem Program.preorder_forest (p : Program) : p.forest.preorder = p.headings := by
  simp [forest, headings, Forest.preorder, p.block.preorder_forest]

namespace Table

/-- The headings of all objects, in the order of their creation. -/
def headings (t : Table) : List Heading :=
  t.objects.toList.map Object.heading

variable {t : Table} {o : ObjectId}

theorem length_headings (t : Table) : t.headings.length = t.objects.size := by
  simp [headings]

theorem HasObject.getElem?_headings (ho : t.HasObject o) :
    t.headings[o.index]? = some (t.object o).heading := by
  have hlt : o.index < t.objects.size := ho
  simp [headings, object, hlt]

/-- The first heading that has been added is that of the object that was the next one. -/
theorem heading_nextObject {t' : Table} {h : Heading} {later : List Heading}
    (ho : t'.HasObject t.nextObject) (hadded : t'.headings = t.headings ++ h :: later) :
    (t'.object t.nextObject).heading = h := by
  have hlength : t.nextObject.index = t.headings.length := t.length_headings.symm
  have hfound := ho.getElem?_headings
  rw [hadded, hlength, List.getElem?_append_right (Nat.le_refl _), Nat.sub_self] at hfound
  exact (Option.some.inj hfound).symm

theorem headings_allocate (b : Blueprint) (name : String) :
    (t.allocate b name).headings =
      t.headings ++ [Object.heading ⟨name, t.newAttributes b, b.kind = .program⟩] := by
  simp [headings, allocate]

/-- A change of the newest object changes the last heading. -/
theorem headings_record_allocate (b : Blueprint) (name : String) (a : Assignment) :
    ((t.allocate b name).modifyObject t.nextObject (·.assign a)).headings =
      t.headings ++
        [Object.heading ⟨name, (t.newAttributes b).assign a, b.kind = .program⟩] := by
  have hlast : (t.allocate b name).objects.size = t.objects.size + 1 := by simp [allocate]
  refine List.ext_getElem (by simp [headings, modifyObject, allocate]) fun i hi _ => ?_
  rw [length_headings] at hi
  simp only [modifyObject, Array.size_modify, hlast] at hi
  simp only [headings, modifyObject, allocate, nextObject, Array.toList_modify, Array.toList_push,
    List.getElem_map, List.getElem_modify, List.getElem_append, Array.length_toList,
    List.length_map]
  by_cases hnew : i < t.objects.size
  · simp [hnew, Nat.ne_of_gt hnew]
  · obtain rfl : i = t.objects.size := by omega
    simp [Object.assign]

/-- A declaration changes no heading. -/
theorem headings_enlist (s : ScopeId) (o : ObjectId) : (t.enlist s o).headings = t.headings := by
  have hsame := t.map_enlist (g := Object.heading) s o (fun p => ?_) fun _ => rfl
  · unfold headings
    rw [← Array.toList_map, hsame, Array.toList_map]
  · unfold Object.heading Object.addParam
    cases p.attributes <;> rfl

end Table

/-- All operations of which loading is made up have the property, if the names that they are given
are `good`, and so has one operation after another that has it. -/
structure Composes (good : String → Prop) (C : {α : Type} → (Table → Outcome α) → Prop) : Prop where
  accepted : ∀ {α : Type} (a : α), C fun t => .accepted a t []
  andThen : ∀ {α β : Type} {first : Table → Outcome α} {next : α → Table → Outcome β},
    C first → (∀ a, C (next a)) → C fun t => (first t).andThen next
  create : ∀ b {name}, good name → C fun t => t.create b name
  assign : ∀ o a, C fun t => t.assign o a
  declare : ∀ o, C fun t => t.declare o
  introduceParam : ∀ {name} mode ty, good name → C fun t => t.introduceParam name mode ty
  enterBody : ∀ o, C fun t => t.enterBody o
  exit : C Table.exit

namespace Composes

variable {good : String → Prop} {C : {α : Type} → (Table → Outcome α) → Prop} {name : String}

theorem introduce (hC : Composes good C) (b : Blueprint) (hname : good name) (a : Assignment) :
    C fun t => t.introduce b name a :=
  hC.andThen (hC.create b hname) fun o => hC.andThen (hC.assign o a) fun _ =>
    hC.andThen (hC.declare o) fun _ => hC.accepted o

theorem introduceProcedure (hC : Composes good C) (hname : good name) :
    C fun t => t.introduceProcedure name :=
  hC.andThen (hC.create .procedure hname) fun o => hC.andThen (hC.declare o) fun _ => hC.accepted o

/-- A block has the property if its declarations have it and what follows them does. -/
theorem block (hC : Composes good C) {β : Type} (o : ObjectId) {body : Declarations}
    {next : Table → Outcome β} (hbody : C body.load) (hnext : C next) :
    C fun t => (t.enterBody o).andThen fun _ t => (body.load t).andThen fun _ t =>
      t.exit.andThen fun _ t => next t :=
  hC.andThen (hC.enterBody o) fun _ => hC.andThen hbody fun _ => hC.andThen hC.exit fun _ => hnext

private theorem load_declarations (hC : Composes good C) (d : Declarations)
    (hd : ∀ h ∈ d.headings, good h.name) : C d.load := by
  induction d with
  | done => exact hC.accepted ()
  | constant name value rest ih | «alias» name actual rest ih | var name ty rest ih =>
    obtain ⟨hname, hrest⟩ := List.forall_mem_cons.mp hd
    exact hC.andThen (hC.introduce _ hname _) fun _ => ih hrest
  | parameter name mode ty rest ih =>
    obtain ⟨hname, hrest⟩ := List.forall_mem_cons.mp hd
    exact hC.andThen (hC.introduceParam mode ty hname) fun _ => ih hrest
  | function name result body rest ihBody ihRest =>
    obtain ⟨hname, hlater⟩ := List.forall_mem_cons.mp hd
    obtain ⟨hbody, hrest⟩ := List.forall_mem_append.mp hlater
    exact hC.andThen (hC.introduce _ hname _) fun o => hC.block o (ihBody hbody) (ihRest hrest)
  | procedure name body rest ihBody ihRest =>
    obtain ⟨hname, hlater⟩ := List.forall_mem_cons.mp hd
    obtain ⟨hbody, hrest⟩ := List.forall_mem_append.mp hlater
    exact hC.andThen (hC.introduceProcedure hname) fun o =>
      hC.block o (ihBody hbody) (ihRest hrest)

theorem load_program (hC : Composes good C) (p : Program) (hp : ∀ h ∈ p.headings, good h.name) :
    C p.load := by
  obtain ⟨hname, hblock⟩ := List.forall_mem_cons.mp hp
  exact hC.andThen (hC.create .program hname) fun o =>
    hC.block o (hC.load_declarations p.block hblock) (hC.accepted o)

end Composes

end BlockScope
