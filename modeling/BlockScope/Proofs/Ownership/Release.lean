import Mathlib.Algebra.BigOperators.Group.Finset.Basic
import BlockScope.Release
import BlockScope.Proofs.Ownership.Holders
import BlockScope.Proofs.Ownership.Sweep
import BlockScope.Table.Change

namespace BlockScope

namespace Table

/-- The objects of the table. -/
def objectIds (t : Table) : Finset ObjectId :=
  (Finset.range t.objects.size).image ObjectId.mk

/-- The scopes of the table. -/
def scopeIds (t : Table) : Finset ScopeId :=
  (Finset.range t.scopes.size).image ScopeId.mk

open Classical in
/-- The objects that an ownership path leads to. -/
noncomputable def reachedObjects (t : Table) : Finset ObjectId :=
  {o ∈ t.objectIds | t.Reached (.object o)}

open Classical in
/-- The scopes that an ownership path leads to. -/
noncomputable def reachedScopes (t : Table) : Finset ScopeId :=
  {s ∈ t.scopeIds | t.Reached (.scope s)}

end Table

/-- What the figures of a report are to mean. Besides the types of the objects, the two types
that belong to the table itself are counted. -/
structure Report.Counts (t : Table) (r : Report) : Prop where
  objects : r.objects = t.reachedObjects.card
  scopes : r.scopes = t.reachedScopes.card
  typeNodes : r.typeNodes =
    ∑ o ∈ t.reachedObjects, ((t.object o).attributes.ty?.map Ty.nodeCount).getD 0 +
      (Ty.int.nodeCount + Ty.char.nodeCount)
  constants : r.constants =
    {o ∈ t.reachedObjects | (t.object o).attributes.value?.isSome}.card
  orphanObjects : r.orphanObjects = (t.objectIds \ t.reachedObjects).card
  orphanScopes : r.orphanScopes = (t.scopeIds \ t.reachedScopes).card

namespace Table

variable {t : Table}

theorem mem_objectIds {o : ObjectId} : o ∈ t.objectIds ↔ t.HasObject o := by
  simp [objectIds, HasObject, ObjectId.eq_iff]

theorem mem_scopeIds {s : ScopeId} : s ∈ t.scopeIds ↔ t.HasScope s := by
  simp [scopeIds, HasScope, ScopeId.eq_iff]

theorem card_objectIds (t : Table) : t.objectIds.card = t.objects.size := by
  rw [objectIds, Finset.card_image_of_injective _ fun i j h => by simpa using h,
    Finset.card_range]

theorem card_scopeIds (t : Table) : t.scopeIds.card = t.scopes.size := by
  rw [scopeIds, Finset.card_image_of_injective _ fun i j h => by simpa using h,
    Finset.card_range]

theorem mem_reachedObjects (h : t.InBounds) {o : ObjectId} :
    o ∈ t.reachedObjects ↔ t.Reached (.object o) := by
  simp only [reachedObjects, Finset.mem_filter, mem_objectIds, and_iff_right_iff_imp]
  rintro ⟨p, hp⟩
  exact mem_nodes_object.mp (hp.mem_nodes h)

theorem mem_reachedScopes (h : t.InBounds) {s : ScopeId} :
    s ∈ t.reachedScopes ↔ t.Reached (.scope s) := by
  simp only [reachedScopes, Finset.mem_filter, mem_scopeIds, and_iff_right_iff_imp]
  rintro ⟨p, hp⟩
  exact mem_nodes_scope.mp (hp.mem_nodes h)

/-- Counting the nodes of a kind in a list without repetitions is counting what they stand
for. -/
private theorem countP_eq_card {α : Type} [DecidableEq α] {f : α → Node}
    (hf : Function.Injective f) {l : List Node} (hl : l.Nodup) {P : Node → Bool} {F : Finset α}
    (h : ∀ n, (n ∈ l ∧ P n) ↔ ∃ a ∈ F, f a = n) : l.countP P = F.card := by
  have hsame : (l.filter P).toFinset = F.image f := by
    ext n
    simpa using h n
  rw [List.countP_eq_length_filter, ← List.toFinset_card_of_nodup (hl.filter P), hsame,
    Finset.card_image_of_injective F hf]

private theorem sum_typeNodes {l : List Node} (hl : l.Nodup) {F : Finset ObjectId}
    (h : ∀ o, .object o ∈ l ↔ o ∈ F) :
    (l.map t.typeNodes).sum = ∑ o ∈ F, t.typeNodes (.object o) := by
  rw [← List.sum_toFinset t.typeNodes hl, ← Finset.sum_image fun o _ p _ heq => Node.object.inj heq]
  symm
  apply Finset.sum_subset
  · intro n hn
    obtain ⟨o, ho, rfl⟩ := Finset.mem_image.mp hn
    exact List.mem_toFinset.mpr ((h o).mpr ho)
  · intro n hn hother
    cases n with
    | object o =>
      have ho := (h o).mp (List.mem_toFinset.mp hn)
      exact absurd (Finset.mem_image_of_mem _ ho) hother
    | scope s => rfl

/-- A report on a walk that came to its end counts what ownership reaches. -/
theorem counts_report (h : t.InBounds) {sweep : Sweep} (hsweep : t.sweep = .ok sweep) :
    (t.report sweep).Counts t := by
  obtain ⟨_, hperm, hreached⟩ := sweep_ok hsweep
  obtain ⟨hnodup, hnodupLeft, hdisjoint⟩ :=
    List.nodup_append.mp (hperm.nodup_iff.mpr t.nodup_nodes)
  have hobject : Function.Injective Node.object := fun o p => Node.object.inj
  have hscope : Function.Injective Node.scope := fun s u => Node.scope.inj
  have hleft (n : Node) : n ∈ sweep.unreached ↔ n ∈ t.nodes ∧ ¬ t.Reached n := by
    rw [← hperm.mem_iff, List.mem_append, hreached]
    constructor
    · intro hn
      exact ⟨.inr hn, fun hr => hdisjoint n ((hreached n).mpr hr) n hn rfl⟩
    · rintro ⟨hn, hnot⟩
      exact hn.resolve_left hnot
  refine ⟨?_, ?_, ?_, ?_, ?_, ?_⟩
  · refine countP_eq_card hobject hnodup fun n => ?_
    cases n <;> simp [Node.isObject, hreached, mem_reachedObjects h]
  · refine countP_eq_card hscope hnodup fun n => ?_
    cases n <;> simp [Node.isScope, hreached, mem_reachedScopes h]
  · have hsum := sum_typeNodes (t := t) hnodup (F := t.reachedObjects) fun o => by
      rw [hreached, mem_reachedObjects h]
    calc (t.report sweep).typeNodes
        = (sweep.reached.map t.typeNodes ++ sharedTypes.map Ty.nodeCount).sum := rfl
      _ = (sweep.reached.map t.typeNodes).sum + (sharedTypes.map Ty.nodeCount).sum :=
        List.sum_append
      _ = _ := by
        rw [hsum]
        rfl
  · refine countP_eq_card hobject hnodup fun n => ?_
    cases n <;> simp [isValued, hreached, mem_reachedObjects h]
  · refine countP_eq_card hobject hnodupLeft fun n => ?_
    cases n <;> simp [Node.isObject, hleft, mem_reachedObjects h, mem_objectIds, mem_nodes_object]
  · refine countP_eq_card hscope hnodupLeft fun n => ?_
    cases n <;> simp [Node.isScope, hleft, mem_reachedScopes h, mem_scopeIds, mem_nodes_scope]

/-- What a report counts as reached and what it counts as left over make up the table. -/
theorem objects_add_orphanObjects {r : Report} (h : r.Counts t) :
    r.objects + r.orphanObjects = t.objects.size := by
  have hsub : t.reachedObjects ⊆ t.objectIds := by
    intro o ho
    simp only [reachedObjects, Finset.mem_filter] at ho
    exact ho.1
  rw [h.objects, h.orphanObjects, Nat.add_comm, Finset.card_sdiff_add_card_eq_card hsub,
    card_objectIds]

theorem scopes_add_orphanScopes {r : Report} (h : r.Counts t) :
    r.scopes + r.orphanScopes = t.scopes.size := by
  have hsub : t.reachedScopes ⊆ t.scopeIds := by
    intro s hs
    simp only [reachedScopes, Finset.mem_filter] at hs
    exact hs.1
  rw [h.scopes, h.orphanScopes, Nat.add_comm, Finset.card_sdiff_add_card_eq_card hsub,
    card_scopeIds]

theorem release_eq_ok_iff {r : Report} :
    t.release = .ok r ↔ ∃ sweep, t.sweep = .ok sweep ∧ t.report sweep = r := by
  unfold release
  cases t.sweep <;> simp

theorem release_eq_error_iff {e : SemanticError} :
    t.release = .error e ↔ ∃ n, t.sweep = .error n ∧ .ownershipViolation (t.nodeName n) = e := by
  unfold release
  cases t.sweep <;> simp

/-- A release that is not refused has a forest before it. -/
theorem isForest_of_release {r : Report} (h : t.release = .ok r) : t.IsForest := by
  obtain ⟨sweep, hsweep, _⟩ := release_eq_ok_iff.mp h
  exact (sweep_ok hsweep).1

/-- The walk through a forest comes to its end. -/
theorem IsForest.release (h : t.IsForest) (hbounds : t.InBounds) : ∃ r, t.release = .ok r := by
  cases hsweep : t.sweep with
  | ok sweep => exact ⟨t.report sweep, release_eq_ok_iff.mpr ⟨sweep, hsweep, rfl⟩⟩
  | error n =>
    obtain ⟨p, hfirst⟩ := sweep_error hbounds hsweep
    exact absurd h hfirst.not_isForest

theorem counts_of_release (hbounds : t.InBounds) {r : Report} (h : t.release = .ok r) :
    r.Counts t := by
  obtain ⟨sweep, hsweep, rfl⟩ := release_eq_ok_iff.mp h
  exact counts_report hbounds hsweep

/-- The tables that edits behind the back of the declaration protocol can make of a reachable
one. -/
inductive Overwritten : Table → Prop
  | reachable {t : Table} (h : t.Reachable) : Overwritten t
  | slot {t : Table} {s : ScopeId} {o : ObjectId} (h : Overwritten t) (hs : t.HasScope s)
      (slot : Nat) (ho : t.HasObject o) : Overwritten (t.overwriteSlot s slot o)
  | body {t : Table} {o : ObjectId} {s : ScopeId} (h : Overwritten t) (ho : t.HasObject o)
      (hs : t.HasScope s) : Overwritten (t.overwriteBody o s)

theorem Overwritten.inBounds (h : t.Overwritten) : t.InBounds := by
  induction h with
  | reachable h => exact h.inBounds
  | @slot t s o _ hs slot ho ih =>
    refine ih.modifyScope fun _ => ⟨fun p hp => ?_, (ih.scope s hs).owner, (ih.scope s hs).outer⟩
    obtain hp | rfl := List.mem_or_eq_of_mem_set hp
    · exact (ih.scope s hs).objects p hp
    · exact ho
  | @body t o s _ ho hs ih =>
    refine ih.modifyObject fun _ => ?_
    have hattributes := ih.attributes o ho
    unfold Object.setBody
    cases hkind : (t.object o).attributes with
    | program body => exact hs
    | function params result body =>
      rw [hkind] at hattributes
      exact ⟨hattributes.1, hs⟩
    | procedure params body =>
      rw [hkind] at hattributes
      exact ⟨hattributes.1, hs⟩
    | constant value => trivial
    | «alias» actual => trivial
    | var ty home =>
      rw [hkind] at hattributes
      exact hattributes
    | parameter ty mode owner =>
      rw [hkind] at hattributes
      exact hattributes

/-- What the release of the table tells of ownership. It is accepted exactly if no two ownership
paths lead to the same node, and its figures then count what the paths lead to and what they leave
out. It is refused with the name of the first node in preorder at which a path arrives again: that
of an object itself, and for a scope that of its owner. -/
structure DecidesForest (t : Table) : Prop where
  accepted_iff : (∃ r, t.release = .ok r) ↔ t.IsForest
  refused_iff : ∀ e, t.release = .error e ↔
    (∃ p o, t.FirstRevisit p (.object o) ∧ e = .ownershipViolation (t.object o).name) ∨
      ∃ p s, t.FirstRevisit p (.scope s) ∧
        e = .ownershipViolation (t.object (t.scope s).owner).name
  counts : ∀ r, t.release = .ok r → r.Counts t

/-- The first node that the walk meets again is the one that a refusal is about. -/
private theorem release_eq_error_of_firstRevisit (hbounds : t.InBounds) {p : List Nat} {n : Node}
    (hfirst : t.FirstRevisit p n) : t.release = .error (.ownershipViolation (t.nodeName n)) := by
  cases hsweep : t.sweep with
  | ok sweep => exact absurd (sweep_ok hsweep).1 hfirst.not_isForest
  | error m =>
    obtain ⟨q, hfound⟩ := sweep_error hbounds hsweep
    rw [hfirst.unique hfound]
    exact release_eq_error_iff.mpr ⟨m, hsweep, rfl⟩

/-- **Teardown decides whether ownership is a forest,** in every table without dangling handles, and
so after any edits of a reachable one. -/
theorem release_decides_isForest :
    (∀ t : Table, t.Overwritten → t.InBounds) ∧ ∀ t : Table, t.InBounds → t.DecidesForest := by
  refine ⟨fun t h => h.inBounds, fun t hbounds => ⟨⟨?_, ?_⟩, fun e => ⟨fun h => ?_, ?_⟩, ?_⟩⟩
  · rintro ⟨r, h⟩
    exact isForest_of_release h
  · intro h
    exact h.release hbounds
  · obtain ⟨n, hsweep, rfl⟩ := release_eq_error_iff.mp h
    obtain ⟨p, hfirst⟩ := sweep_error hbounds hsweep
    cases n with
    | object o => exact .inl ⟨p, o, hfirst, rfl⟩
    | scope s => exact .inr ⟨p, s, hfirst, rfl⟩
  · rintro (⟨p, o, hfirst, rfl⟩ | ⟨p, s, hfirst, rfl⟩)
    · exact release_eq_error_of_firstRevisit hbounds hfirst
    · exact release_eq_error_of_firstRevisit hbounds hfirst
  · intro r h
    exact counts_of_release hbounds h

/-- A program with a procedure, a constant and a variable, and a second variable and a scope that
belong nowhere. -/
def furnishing : List Step :=
  [.command (.create .program "P"), .command (.enter ⟨5⟩), .command (.create .procedure "p"),
    .command (.declare ⟨8⟩), .command (.create .constant "c"),
    .command (.assign ⟨9⟩ (.constant (.int 3))), .command (.declare ⟨9⟩),
    .command (.create .var "x"), .command (.assign ⟨10⟩ (.var .int)), .command (.declare ⟨10⟩),
    .command (.create .var "y"), .command (.assign ⟨11⟩ (.var (.array 2 .char))),
    .command (.createScope ⟨7⟩ none)]

/-- The procedure has been given the body of the program for its own. -/
def entangled : Table :=
  ((initial 15).after furnishing).overwriteBody ⟨8⟩ ⟨5⟩

/-- The slot of a predeclared parameter has been given to a variable of the program. -/
def shared : Table :=
  ((initial 15).after furnishing).overwriteSlot ⟨2⟩ 0 ⟨10⟩

/-- The slot of the declared variable has been given to the other one. -/
def exchanged : Table :=
  ((initial 15).after furnishing).overwriteSlot ⟨5⟩ 2 ⟨11⟩

private theorem overwritten_furnished : ((initial 15).after furnishing).Overwritten :=
  .reachable ((Reachable.initial 15).after (by decide))

/-- The first table arrives again at a scope, and the second at an object. The third is a forest
that leaves out an object and a scope. -/
theorem release_entangled :
    (entangled.release = .error (.ownershipViolation "P") ∧
      ∃ p, entangled.FirstRevisit p (.scope ⟨5⟩)) ∧
    (shared.release = .error (.ownershipViolation "x") ∧
      ∃ p, shared.FirstRevisit p (.object ⟨10⟩)) ∧
    exchanged.release = .ok ⟨11, 7, 8, 1, 1, 1⟩ ∧ exchanged.IsForest ∧
      exchanged.reachedObjects.card = 11 ∧ exchanged.reachedScopes.card = 7 := by
  obtain ⟨hin, hdecides⟩ := release_decides_isForest
  have hentangled : entangled.InBounds :=
    hin _ (.body overwritten_furnished (by decide) (by decide))
  have hshared : shared.InBounds := hin _ (.slot overwritten_furnished (by decide) 0 (by decide))
  have hexchanged : exchanged.InBounds :=
    hin _ (.slot overwritten_furnished (by decide) 2 (by decide))
  obtain ⟨p, hscope⟩ := sweep_error (n := .scope ⟨5⟩) hentangled (by decide +kernel)
  obtain ⟨q, hobject⟩ := sweep_error (n := .object ⟨10⟩) hshared (by decide +kernel)
  have haccepted : exchanged.release = .ok ⟨11, 7, 8, 1, 1, 1⟩ := by decide +kernel
  have hcounts := (hdecides _ hexchanged).counts _ haccepted
  refine ⟨⟨?_, p, hscope⟩, ⟨?_, q, hobject⟩, haccepted, ?_, hcounts.objects.symm,
    hcounts.scopes.symm⟩
  · exact ((hdecides _ hentangled).refused_iff _).mpr (.inr ⟨p, ⟨5⟩, hscope, by decide⟩)
  · exact ((hdecides _ hshared).refused_iff _).mpr (.inl ⟨q, ⟨10⟩, hobject, by decide⟩)
  · exact (hdecides _ hexchanged).accepted_iff.mp ⟨_, haccepted⟩

end Table

end BlockScope
