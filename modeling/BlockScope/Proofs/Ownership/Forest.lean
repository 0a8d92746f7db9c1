import BlockScope.Proofs.Ownership.Release

namespace BlockScope.Table

variable {t t' : Table}

/-- A body belongs to the object whose body it is. Two objects therefore never share one. -/
def BodiesOwned (t : Table) : Prop :=
  ∀ o s, (t.object o).body? = some s → (t.scope s).owner = o

private theorem bodiesOwned_initial (limit : Nat) : (initial limit).BodiesOwned := by
  rintro ⟨i⟩ s hbody
  by_cases hi : i < 7
  · interval_cases i <;> simp [object, objects_initial, Object.body?, Attributes.body?] at hbody <;>
      subst hbody <;> simp [scope, scopes_initial]
  · have hnone : ¬ (initial limit).HasObject ⟨i⟩ := hi
    rw [object_of_not_hasObject hnone] at hbody
    cases hbody

theorem BodiesOwned.transition (hbounds : t.InBounds) (hstep : t.Transition t')
    (h : t.BodiesOwned) : t'.BodiesOwned := by
  intro o s hbody
  cases hstep with
  | @create b name hfits hlength hfirst =>
    rw [object_allocate] at hbody
    rw [scope_allocate]
    by_cases hnew : o = t.nextObject
    · rw [if_pos hnew] at hbody
      have hkind : b.kind.hasBody ∧ s = t.nextScope := by
        have hfound := (t.body?_newAttributes b).symm.trans hbody
        split at hfound
        · exact ⟨by assumption, (Option.some.inj hfound).symm⟩
        · cases hfound
      rw [if_pos hkind, hnew]
    · rw [if_neg hnew] at hbody
      rw [if_neg fun hnext => (hbounds.body hbody).ne_nextScope hnext.2]
      exact h o s hbody
  | createScope howner houter =>
    rw [object_createScope] at hbody
    rw [scope_createScope, if_neg (hbounds.body hbody).ne_nextScope]
    exact h o s hbody
  | assign ho hkind =>
    rw [body?_assign] at hbody
    exact h o s hbody
  | enter hs hopen houter => exact h o s hbody
  | exit hcurrent => exact h o s hbody
  | declare hcurrent ho hfresh =>
    rw [body?_enlist] at hbody
    rw [owner_enlist]
    exact h o s hbody

theorem Reachable.bodiesOwned (h : t.Reachable) : t.BodiesOwned :=
  h.invariant bodiesOwned_initial BodiesOwned.transition

/-- If no root is owned, no root is listed twice and nothing is owned in two ways, then only
one path leads to any node. -/
private theorem isForest_of_unique_owner (hroots : t.roots.Nodup)
    (hfree : ∀ m, ∀ n ∈ t.roots, n ∉ t.owned m)
    (honce : ∀ {n m m' : Node} {i j : Nat}, (t.owned m)[i]? = some n → (t.owned m')[j]? = some n →
      m = m' ∧ i = j) : t.IsForest := by
  intro n p q hp
  induction hp generalizing q with
  | @root i n hroot =>
    intro hq
    cases hq with
    | root hroot' =>
      have hi : i < t.roots.length := (List.getElem?_eq_some_iff.mp hroot).1
      have hsame := (List.getElem?_inj hi hroots).mp (hroot.trans hroot'.symm)
      rw [hsame]
    | own _ howned =>
      exact absurd (List.mem_of_getElem? howned) (hfree _ n (List.mem_of_getElem? hroot))
  | @own p m n i _ howned ih =>
    intro hq
    cases hq with
    | root hroot =>
      exact absurd (List.mem_of_getElem? howned) (hfree m n (List.mem_of_getElem? hroot))
    | own hq' howned' =>
      obtain ⟨rfl, rfl⟩ := honce howned howned'
      rw [ih _ hq']

theorem mem_roots_object {o : ObjectId} :
    .object o ∈ t.roots ↔ t.program = some o ∨ o ∈ t.globals := by
  simp [roots]

/-- A container has taken an object exactly if it is a root or a scope lists it. -/
theorem SingleOwner.registered_iff (h : t.SingleOwner) {o : ObjectId} :
    (t.object o).registered ↔ .object o ∈ t.roots ∨ ∃ s, o ∈ (t.scope s).objects := by
  have hheld : (t.object o).registered ↔ t.timesHeld o ≠ 0 := by
    rw [h.held]
    split <;> simp_all
  have hlisted : (∃ s, o ∈ (t.scope s).objects) ↔ t.timesDeclared o ≠ 0 := by
    rw [Ne, timesDeclared_eq_zero_iff, not_forall_not]
  have hglobal : o ∈ t.globals ↔ t.globals.count o ≠ 0 := by
    rw [← List.count_pos_iff, Nat.pos_iff_ne_zero]
  rw [hheld, mem_roots_object, hlisted, hglobal]
  unfold timesHeld
  by_cases hprogram : t.program = some o
  · simp [hprogram]
  · simp only [hprogram, if_false, false_or]
    omega

theorem SingleOwner.nodup_objects (h : t.SingleOwner) (s : ScopeId) :
    (t.scope s).objects.Nodup := by
  rw [List.nodup_iff_count_le_one]
  intro o
  have honce := h.timesHeld_le_one o
  have hle := t.count_le_timesDeclared s o
  unfold timesHeld at honce
  omega

private theorem SingleOwner.nodup_roots (h : t.SingleOwner) : t.roots.Nodup := by
  refine List.Nodup.map (fun o p => Node.object.inj) ?_
  rw [List.nodup_iff_count_le_one]
  intro o
  have honce := h.timesHeld_le_one o
  have hprogram : t.program.toList.count o = if t.program = some o then 1 else 0 := by
    cases t.program <;> simp [List.count_cons]
  rw [List.count_append, hprogram]
  unfold timesHeld at honce
  omega

theorem SingleOwner.not_owned_root (h : t.SingleOwner) {m n : Node} (hn : n ∈ t.roots) :
    n ∉ t.owned m := by
  intro howned
  cases m with
  | object o =>
    obtain ⟨p, _, rfl⟩ := List.mem_map.mp hn
    simp [owned] at howned
  | scope s =>
    obtain ⟨o, ho, rfl⟩ := List.mem_map.mp howned
    have hnone := timesDeclared_eq_zero_iff.mp (h.timesDeclared_root (mem_roots_object.mp hn))
    exact hnone s ho

/-- Only one scope lists an object. -/
theorem SingleOwner.eq_of_mem_objects (h : t.SingleOwner) {o : ObjectId} {s u : ScopeId}
    (hs : o ∈ (t.scope s).objects) (hu : o ∈ (t.scope u).objects) : s = u := by
  by_contra hne
  have honce := h.timesHeld_le_one o
  have hboth := t.count_add_count_le_timesDeclared hne o
  have hpos := List.count_pos_iff.mpr hs
  have hpos' := List.count_pos_iff.mpr hu
  unfold timesHeld at honce
  omega

/-- Objects are owned by scopes. -/
theorem getElem?_owned_eq_object {m : Node} {i : Nat} {o : ObjectId} :
    (t.owned m)[i]? = some (.object o) ↔
      ∃ s, m = .scope s ∧ (t.scope s).objects[i]? = some o := by
  cases m with
  | object p => cases hbody : (t.object p).body? <;> simp [owned, hbody, List.getElem?_singleton]
  | scope s => simp [owned]

/-- Scopes are owned by objects, each of which owns one at most. -/
theorem getElem?_owned_eq_scope {m : Node} {i : Nat} {s : ScopeId} :
    (t.owned m)[i]? = some (.scope s) ↔
      ∃ o, m = .object o ∧ i = 0 ∧ (t.object o).body? = some s := by
  cases m with
  | object p =>
    cases hbody : (t.object p).body? <;> simp [owned, hbody, List.getElem?_singleton]
  | scope u => simp [owned]

/-- Nothing is owned in two ways. -/
private theorem owned_unique (h : t.SingleOwner) (hbodies : t.BodiesOwned) {n m m' : Node}
    {i j : Nat}
    (hi : (t.owned m)[i]? = some n) (hj : (t.owned m')[j]? = some n) : m = m' ∧ i = j := by
  cases n with
  | object o =>
    obtain ⟨s, rfl, hs⟩ := getElem?_owned_eq_object.mp hi
    obtain ⟨u, rfl, hu⟩ := getElem?_owned_eq_object.mp hj
    obtain rfl := h.eq_of_mem_objects (List.mem_of_getElem? hs) (List.mem_of_getElem? hu)
    have hlt : i < (t.scope s).objects.length := (List.getElem?_eq_some_iff.mp hs).1
    exact ⟨rfl, (List.getElem?_inj hlt (h.nodup_objects s)).mp (hs.trans hu.symm)⟩
  | scope s =>
    obtain ⟨o, rfl, rfl, ho⟩ := getElem?_owned_eq_scope.mp hi
    obtain ⟨p, rfl, rfl, hp⟩ := getElem?_owned_eq_scope.mp hj
    have hsame : o = p := (hbodies o s ho).symm.trans (hbodies p s hp)
    exact ⟨congrArg Node.object hsame, rfl⟩

/-- Routines that own each other are out of reach of the program and the predeclared routines,
so what these own stays a forest whatever a session does. -/
theorem Reachable.isForest (h : t.Reachable) : t.IsForest :=
  isForest_of_unique_owner h.singleOwner.nodup_roots
    (fun _ _ hn => h.singleOwner.not_owned_root hn)
    (owned_unique h.singleOwner h.bodiesOwned)

/-- **Teardown of a reachable table.** The release of a table is accepted after any session, and
its figures account for every object and every scope. -/
theorem Reachable.release_accounts (h : t.Reachable) :
    ∃ r, t.release = .ok r ∧ r.objects + r.orphanObjects = t.objects.size ∧
      r.scopes + r.orphanScopes = t.scopes.size := by
  obtain ⟨r, hr⟩ := h.isForest.release h.inBounds
  have hcounts := counts_of_release h.inBounds hr
  exact ⟨r, hr, objects_add_orphanObjects hcounts, scopes_add_orphanScopes hcounts⟩

/-- The two routines of the session own each other, and the variable was never declared. -/
theorem release_crosswise : ((initial 15).after crosswise).Reachable ∧
    ∃ r, ((initial 15).after crosswise).release = .ok r ∧ r.objects = 8 ∧ r.orphanObjects = 3 ∧
      r.scopes = 6 ∧ r.orphanScopes = 2 := by
  obtain ⟨r, hr, hobjects, hscopes⟩ := reachable_crosswise.release_accounts
  have hreport : ((initial 15).after crosswise).release = .ok ⟨8, 6, 6, 0, 3, 2⟩ := by
    decide +kernel
  obtain rfl := Except.ok.inj (hr.symm.trans hreport)
  exact ⟨reachable_crosswise, _, hr, rfl, rfl, rfl, rfl⟩

end BlockScope.Table
