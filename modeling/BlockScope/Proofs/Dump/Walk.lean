import Mathlib.Data.List.Forall2
import BlockScope.Proofs.Dump.Lines
import BlockScope.Proofs.Dump.Unambiguous

namespace BlockScope

namespace Forest

variable {α β : Type}

private theorem outline_map (g : α → β) (f : Forest α) (depth : Nat) :
    (f.map g).outline depth = (f.outline depth).map fun (depth, a) => (depth, g a) := by
  induction f generalizing depth with
  | nil => rfl
  | cons root below after ihBelow ihAfter => simp [map, outline, ihBelow, ihAfter]

private theorem map_snd_outline (f : Forest α) (depth : Nat) :
    (f.outline depth).map Prod.snd = f.preorder := by
  induction f generalizing depth with
  | nil => rfl
  | cons root below after ihBelow ihAfter => simp [outline, preorder, ihBelow, ihAfter]

end Forest

namespace Object

/-- The object has no line break in its name, and a line break is not its value. -/
structure OnOneLine (o : Object) : Prop where
  newline : '\n' ∉ o.name.toList
  value : o.attributes.value? ≠ some (.char '\n')

instance (o : Object) : Decidable o.OnOneLine :=
  decidable_of_iff ('\n' ∉ o.name.toList ∧ o.attributes.value? ≠ some (.char '\n'))
    ⟨fun h => ⟨h.1, h.2⟩, fun h => ⟨h.1, h.2⟩⟩

theorem OnOneLine.heading {o : Object} (h : o.OnOneLine) : o.heading.OnOneLine :=
  ⟨o.name_heading ▸ h.newline, o.value?_heading ▸ h.value⟩

end Object

def Node.object? : Node → Option ObjectId
  | object o => some o
  | scope _ => none

/-- The objects that a walk met, in this order. -/
def Sweep.objects (sweep : Sweep) : List ObjectId :=
  sweep.reached.filterMap Node.object?

namespace Table

/-- An object and its body, if it has one. -/
def withBody (t : Table) (o : ObjectId) : List Node :=
  .object o :: t.owned (.object o)

/-- The lines show the objects, each line one of them and in this order. A line is indented by four
spaces for each object around the one it shows. Objects and scopes alternate on an ownership path,
which begins and ends with an object. -/
def Lists (t : Table) (lines : List String) (objects : List ObjectId) : Prop :=
  List.Forall₂ (fun line o => ∃ path, t.PathTo path (.object o) ∧
    line = indented (4 * (path.length / 2)) (t.object o).heading.text) lines objects

variable {t : Table} {list : List ObjectId} {f : Forest ObjectId} {depth : Nat} {r : Report}

private theorem mem_roots_of_program {o : ObjectId} (ho : o ∈ t.program.toList) :
    .object o ∈ t.roots :=
  mem_roots_object.mpr (.inl (Option.mem_toList.mp ho))

private theorem mem_roots_of_globals {o : ObjectId} (ho : o ∈ t.globals) : .object o ∈ t.roots :=
  mem_roots_object.mpr (.inr ho)

private theorem sweepFrom_cons_eq_ok {unreached rest : List Node} {n : Node} {sweep : Sweep} :
    t.sweepFrom unreached (n :: rest) = .ok sweep ↔ n ∈ unreached ∧
      ∃ later, t.sweepFrom (unreached.erase n) (t.owned n ++ rest) = .ok later ∧
        sweep = { later with reached := n :: later.reached } := by
  rw [sweepFrom]
  split
  · rename_i hmem
    cases t.sweepFrom (unreached.erase n) (t.owned n ++ rest) with
    | ok later => simp [hmem, Except.map, eq_comm]
    | error k => simp [Except.map]
  · rename_i hmem
    simp [hmem]

/-- A walk takes first what the list unfolds to, each object with its body after it, and goes on to
the rest. -/
theorem Unfolds.sweepFrom (h : t.Unfolds list f) {unreached rest : List Node} {sweep : Sweep}
    (hsweep : t.sweepFrom unreached (list.map .object ++ rest) = .ok sweep) :
    ∃ left later, t.sweepFrom left rest = .ok later ∧
      sweep = { later with reached := f.preorder.flatMap t.withBody ++ later.reached } := by
  induction h generalizing unreached rest sweep with
  | nil => exact ⟨unreached, sweep, hsweep, rfl⟩
  | @cons o others below after hbelow _ ihBelow ihAfter =>
    rw [List.map_cons, List.cons_append] at hsweep
    obtain ⟨_, first, hfirst, rfl⟩ := sweepFrom_cons_eq_ok.mp hsweep
    rw [Forest.preorder, List.flatMap_cons, List.flatMap_append, withBody]
    cases hbody : (t.object o).body? with
    | none =>
      have howned : t.owned (.object o) = [] := by simp [owned, hbody]
      have hcontents : t.contents o = [] := by simp [contents, hbody]
      rw [hcontents] at hbelow
      cases hbelow
      rw [howned] at hfirst
      obtain ⟨left, later, hlater, rfl⟩ := ihAfter hfirst
      exact ⟨left, later, hlater, by simp [howned, Forest.preorder]⟩
    | some s =>
      have howned : t.owned (.object o) = [.scope s] := by simp [owned, hbody]
      have hcontents : t.owned (.scope s) = (t.contents o).map .object := by
        simp [owned, contents, hbody]
      rw [howned, List.singleton_append] at hfirst
      obtain ⟨_, second, hsecond, rfl⟩ := sweepFrom_cons_eq_ok.mp hfirst
      rw [hcontents] at hsecond
      obtain ⟨_, third, hthird, rfl⟩ := ihBelow hsecond
      obtain ⟨left, later, hlater, rfl⟩ := ihAfter hthird
      exact ⟨left, later, hlater, by simp [howned]⟩

/-- Where the release is not refused, the walk before it goes through two forests: that of the
program and that of the predeclared routines. -/
theorem exists_forests (h : t.release = .ok r) : ∃ sweep own predeclared,
    t.sweep = .ok sweep ∧ t.report sweep = r ∧
      t.forest? t.program.toList = some own ∧ t.Unfolds t.program.toList own ∧
      t.forest? t.globals = some predeclared ∧ t.Unfolds t.globals predeclared ∧
      sweep.reached = (own.preorder ++ predeclared.preorder).flatMap t.withBody := by
  obtain ⟨sweep, hsweep, hreport⟩ := release_eq_ok_iff.mp h
  obtain ⟨own, hown, hownUnfolds⟩ :=
    exists_forest h fun o ho => .root (mem_roots_of_program ho)
  obtain ⟨predeclared, hglobals, hglobalsUnfolds⟩ :=
    exists_forest h fun o ho => .root (mem_roots_of_globals ho)
  refine ⟨sweep, own, predeclared, hsweep, hreport, hown, hownUnfolds, hglobals, hglobalsUnfolds,
    ?_⟩
  have hwalk : t.sweepFrom t.nodes (t.program.toList.map .object ++
      (t.globals.map .object ++ [])) = .ok sweep := by
    rw [List.append_nil, ← List.map_append]
    exact hsweep
  obtain ⟨left, later, hlater, rfl⟩ := hownUnfolds.sweepFrom hwalk
  obtain ⟨_, last, hlast, rfl⟩ := hglobalsUnfolds.sweepFrom hlater
  rw [Table.sweepFrom] at hlast
  obtain rfl := Except.ok.inj hlast
  simp

theorem filterMap_flatMap_withBody (t : Table) (list : List ObjectId) :
    (list.flatMap t.withBody).filterMap Node.object? = list := by
  induction list with
  | nil => rfl
  | cons o rest ih =>
    rw [List.flatMap_cons, List.filterMap_append, ih]
    cases hbody : (t.object o).body? <;> simp [withBody, owned, hbody, Node.object?]

theorem countP_isObject (nodes : List Node) :
    nodes.countP Node.isObject = (nodes.filterMap Node.object?).length := by
  have hkind : Node.isObject = fun n => n.object?.isSome := by
    funext n
    cases n <;> rfl
  rw [hkind, List.length_filterMap_eq_countP]

/-- An object at some depth of a forest has as many objects around it. -/
private theorem Unfolds.exists_pathTo (h : t.Unfolds list f)
    (hlist : ∀ o ∈ list, ∃ path, t.PathTo path (.object o) ∧ path.length = 2 * depth + 1) :
    ∀ entry ∈ f.outline depth, ∃ path, t.PathTo path (.object entry.2) ∧
      path.length = 2 * entry.1 + 1 := by
  induction h generalizing depth with
  | nil => exact fun _ hentry => by cases hentry
  | @cons o rest below after _ _ ihBelow ihAfter =>
    obtain ⟨hroot, hrest⟩ := List.forall_mem_cons.mp hlist
    refine List.forall_mem_cons.mpr ⟨hroot, List.forall_mem_append.mpr ⟨?_, ihAfter hrest⟩⟩
    refine ihBelow fun q hq => ?_
    obtain ⟨path, hpath, hlength⟩ := hroot
    obtain ⟨s, hbody⟩ : ∃ s, (t.object o).body? = some s := by
      cases hbody : (t.object o).body? with
      | none => simp [contents, hbody] at hq
      | some s => exact ⟨s, rfl⟩
    have hlisted : q ∈ (t.scope s).objects := by simpa [contents, hbody] using hq
    obtain ⟨i, hi⟩ := List.mem_iff_getElem?.mp hlisted
    have hscope : t.PathTo (path ++ [0]) (.scope s) :=
      .own hpath (getElem?_owned_eq_scope.mpr ⟨o, rfl, rfl, hbody⟩)
    refine ⟨path ++ [0] ++ [i], .own hscope (getElem?_owned_eq_object.mpr ⟨s, rfl, hi⟩), ?_⟩
    simp only [List.length_append, List.length_singleton, hlength]
    omega

theorem Lists.append {lines lines' : List String} {objects objects' : List ObjectId}
    (h : t.Lists lines objects) (h' : t.Lists lines' objects') :
    t.Lists (lines ++ lines') (objects ++ objects') :=
  List.rel_append h h'

/-- The lines of the dump of roots show what the roots unfold to. -/
theorem Unfolds.lists (h : t.Unfolds list f) (hroots : ∀ o ∈ list, .object o ∈ t.roots)
    (honeLine : ∀ o ∈ f.preorder, (t.object o).OnOneLine) :
    t.Lists (lines ((f.map fun o => (t.object o).heading).render 0)) f.preorder := by
  have hheadings : ∀ heading ∈ (f.map fun o => (t.object o).heading).preorder,
      heading.OnOneLine := by
    rw [Forest.preorder_map]
    exact List.forall_mem_map.mpr fun o ho => (honeLine o ho).heading
  rw [Forest.lines_render hheadings, Forest.outline_map, List.map_map, ← f.map_snd_outline 0, Lists,
    List.forall₂_map_left_iff, List.forall₂_map_right_iff, List.forall₂_same]
  intro entry hentry
  have hstart : ∀ o ∈ list, ∃ path, t.PathTo path (.object o) ∧ path.length = 2 * 0 + 1 := by
    intro o ho
    obtain ⟨i, hi⟩ := List.mem_iff_getElem?.mp (hroots o ho)
    exact ⟨[i], .root hi, rfl⟩
  obtain ⟨path, hpath, hlength⟩ := h.exists_pathTo hstart entry hentry
  have hdepth : path.length / 2 = entry.1 := by omega
  exact ⟨path, hpath, by simp [hdepth, indentStep]⟩

end Table

end BlockScope
