import BlockScope.Proofs.Dump.Nesting
import BlockScope.Proofs.Dump.Render

namespace BlockScope

theorem Forest.preorder_map {α β : Type} (g : α → β) (f : Forest α) :
    (f.map g).preorder = f.preorder.map g := by
  induction f with
  | nil => rfl
  | cons root below after ihBelow ihAfter => simp [map, preorder, ihBelow, ihAfter]

namespace Object

/-- The object has neither a space nor a line break in its name, and a line break is not its
value. -/
structure Plain (o : Object) : Prop where
  space : ' ' ∉ o.name.toList
  newline : '\n' ∉ o.name.toList
  value : o.attributes.value? ≠ some (.char '\n')

instance (o : Object) : Decidable o.Plain :=
  decidable_of_iff
    (' ' ∉ o.name.toList ∧ '\n' ∉ o.name.toList ∧ o.attributes.value? ≠ some (.char '\n'))
    ⟨fun h => ⟨h.1, h.2.1, h.2.2⟩, fun h => ⟨h.1, h.2, h.3⟩⟩

/-- Two objects agree in what their declarations say, wherever they are declared: in their kinds,
names and parameter modes, and in their types and values, if these have been recorded. -/
structure Agrees (o o' : Object) : Prop where
  kind : o.kind = o'.kind
  name : o.name = o'.name
  mode : o.attributes.mode? = o'.attributes.mode?
  ty : o.attributes.ty? = o'.attributes.ty?
  value : o.attributes.value? = o'.attributes.value?

private theorem mode?_heading (o : Object) : o.heading.mode? = o.attributes.mode? := by
  unfold heading
  cases o.attributes <;> rfl

theorem ty?_heading (o : Object) : o.heading.ty? = o.attributes.ty? := by
  unfold heading
  cases o.attributes <;> rfl

theorem value?_heading (o : Object) : o.heading.value? = o.attributes.value? := by
  unfold heading
  cases o.attributes <;> rfl

/-- A heading shows what the declaration of an object says, and nothing else. -/
theorem heading_eq_iff {o o' : Object} : o.heading = o'.heading ↔ o.Agrees o' := by
  rw [Heading.eq_iff]
  simp only [kind_heading, name_heading, mode?_heading, ty?_heading, value?_heading]
  exact ⟨fun ⟨hkind, hname, hmode, hty, hvalue⟩ => ⟨hkind, hname, hmode, hty, hvalue⟩,
    fun h => ⟨h.kind, h.name, h.mode, h.ty, h.value⟩⟩

theorem Plain.heading {o : Object} (h : o.Plain) : o.heading.Plain := by
  refine ⟨?_, ?_, ?_⟩
  · exact o.name_heading ▸ h.space
  · exact o.name_heading ▸ h.newline
  · exact o.value?_heading ▸ h.value

end Object

namespace Table

/-- The lists are equal as ordered forests: object by object they agree, and so does what the
objects contain, in the same order. The handles may be others. -/
inductive Alike (t t' : Table) : List ObjectId → List ObjectId → Prop
  | nil : Alike t t' [] []
  | cons {o o' : ObjectId} {rest rest' : List ObjectId}
      (hagrees : (t.object o).Agrees (t'.object o'))
      (hcontents : Alike t t' (t.contents o) (t'.contents o')) (hrest : Alike t t' rest rest') :
      Alike t t' (o :: rest) (o' :: rest')

/-- The object is the program, or belongs to it. -/
def InProgram (t : Table) (o : ObjectId) : Prop :=
  ∃ p, t.program = some p ∧ (o = p ∨ t.Owns (.object p) (.object o))

variable {t t' : Table} {list list' : List ObjectId} {f f' : Forest ObjectId}

private theorem Unfolds.alike_iff (h : t.Unfolds list f) (h' : t'.Unfolds list' f') :
    t.Alike t' list list' ↔
      f.map (fun o => (t.object o).heading) = f'.map fun o => (t'.object o).heading := by
  induction h generalizing list' f' with
  | nil =>
    cases h' with
    | nil => exact ⟨fun _ => rfl, fun _ => .nil⟩
    | cons _ _ => exact ⟨nofun, nofun⟩
  | @cons o rest below after _ _ ihBelow ihAfter =>
    cases h' with
    | nil => exact ⟨nofun, nofun⟩
    | @cons o' rest' below' after' hbelow' hafter' =>
      rw [Forest.map, Forest.map, Forest.cons.injEq, Object.heading_eq_iff, ← ihBelow hbelow',
        ← ihAfter hafter']
      constructor
      · rintro (_ | ⟨hagrees, hcontents, hrest⟩)
        exact ⟨hagrees, hcontents, hrest⟩
      · rintro ⟨hagrees, hcontents, hrest⟩
        exact .cons hagrees hcontents hrest

/-- What holds of all objects of a table, and of what is read at a handle of none, holds of what is
read at any handle. -/
theorem forall_object {P : Object → Prop} (hdefault : P default)
    (h : ∀ o ∈ t.objects.toList, P o) (o : ObjectId) : P (t.object o) := by
  unfold object
  cases hfound : t.objects[o.index]? with
  | none => exact hdefault
  | some found => exact h found (Array.mem_toList_iff.mpr (Array.mem_of_getElem? hfound))

/-- Where the release is not refused, the program has a dump: that of a forest in which each object
is the program or belongs to it. -/
theorem exists_dumpProgram {r : Report} {p : ObjectId} (hrelease : t.release = .ok r)
    (hprogram : t.program = some p) : ∃ f, t.Unfolds [p] f ∧
      t.dumpProgram? = some ((f.map fun o => (t.object o).heading).render 0) ∧
      ∀ o ∈ f.preorder, t.InProgram o := by
  have hroot : ∀ o ∈ [p], t.Reached (.object o) := by
    intro o ho
    obtain rfl := List.mem_singleton.mp ho
    exact .root (mem_roots_object.mpr (.inl hprogram))
  obtain ⟨f, hforest, hunfolds⟩ := exists_forest hrelease hroot
  refine ⟨f, hunfolds, ?_, fun o ho => ⟨p, hprogram, ?_⟩⟩
  · simp [dumpProgram?, dumpList?, hprogram, hforest]
  · simpa using hunfolds.mem_preorder ho

/-- **The dump of a program is unambiguous.** Where the releases of two tables are not refused and
their programs have only plain names and character constants, both programs have dumps, and these
are the same text exactly if the programs are equal as ordered trees. -/
theorem dumpProgram_eq_iff {r r' : Report} {p p' : ObjectId}
    (hrelease : t.release = .ok r) (hrelease' : t'.release = .ok r')
    (hprogram : t.program = some p) (hprogram' : t'.program = some p')
    (hplain : ∀ o, t.InProgram o → (t.object o).Plain)
    (hplain' : ∀ o, t'.InProgram o → (t'.object o).Plain) :
    ∃ text text', t.dumpProgram? = some text ∧ t'.dumpProgram? = some text' ∧
      (text = text' ↔ t.Alike t' [p] [p']) := by
  obtain ⟨f, hunfolds, hdump, hin⟩ := exists_dumpProgram hrelease hprogram
  obtain ⟨f', hunfolds', hdump', hin'⟩ := exists_dumpProgram hrelease' hprogram'
  refine ⟨_, _, hdump, hdump', ?_⟩
  rw [hunfolds.alike_iff hunfolds']
  refine ⟨fun heq => ?_, fun heq => by rw [heq]⟩
  refine Forest.render_inj (fun h hmem => ?_) (fun h hmem => ?_) heq
  · rw [Forest.preorder_map] at hmem
    obtain ⟨o, ho, rfl⟩ := List.mem_map.mp hmem
    exact (hplain o (hin o ho)).heading
  · rw [Forest.preorder_map] at hmem
    obtain ⟨o, ho, rfl⟩ := List.mem_map.mp hmem
    exact (hplain' o (hin' o ho)).heading

/-- A program with one procedure, which has one parameter. -/
def oneParam (name : String) (mode : ParamMode) : Table :=
  (initial 15).after [.command (.create .program "P"), .command (.enter ⟨5⟩),
    .command (.create .procedure "p"), .command (.declare ⟨8⟩), .command (.enter ⟨6⟩),
    .command (.create (.parameter mode ⟨8⟩) name), .command (.declare ⟨9⟩)]

/-- A parameter that is called by the word for passing by reference is told apart from a nameless
one that is passed so: the lines differ by one space. -/
theorem dumpProgram_ne_of_mode : ∃ text text', (oneParam "VAR" .byValue).dumpProgram? = some text ∧
    (oneParam "" .byReference).dumpProgram? = some text' ∧ text ≠ text' ∧
      ¬ (oneParam "VAR" .byValue).Alike (oneParam "" .byReference) [⟨7⟩] [⟨7⟩] := by
  have hrelease : (oneParam "VAR" .byValue).release = .ok ⟨10, 7, 6, 0, 0, 0⟩ := by decide +kernel
  have hrelease' : (oneParam "" .byReference).release = .ok ⟨10, 7, 6, 0, 0, 0⟩ := by
    decide +kernel
  have hprogram : (oneParam "VAR" .byValue).program = some ⟨7⟩ := by decide +kernel
  have hprogram' : (oneParam "" .byReference).program = some ⟨7⟩ := by decide +kernel
  have hplain (o : ObjectId) : ((oneParam "VAR" .byValue).object o).Plain :=
    forall_object (by decide) (by decide +kernel) o
  have hplain' (o : ObjectId) : ((oneParam "" .byReference).object o).Plain :=
    forall_object (by decide) (by decide +kernel) o
  obtain ⟨text, text', htext, htext', hiff⟩ := dumpProgram_eq_iff hrelease hrelease' hprogram
    hprogram' (fun o _ => hplain o) fun o _ => hplain' o
  have hdiffer :
      (oneParam "VAR" .byValue).dumpProgram? ≠ (oneParam "" .byReference).dumpProgram? := by
    decide +kernel
  have hne : text ≠ text' := fun heq => hdiffer (by rw [htext, htext', heq])
  exact ⟨text, text', htext, htext', hne, fun halike => hne (hiff.mpr halike)⟩

end Table

end BlockScope
