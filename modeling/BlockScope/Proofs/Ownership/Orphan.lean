import Mathlib.Order.WellFoundedSet
import BlockScope.Proofs.Ownership.Cycle

namespace BlockScope.Table

/-- The objects that a container has taken. -/
def registeredObjects (t : Table) : Finset ObjectId :=
  {o ∈ t.objectIds | (t.object o).registered}

/-- The objects that no container has taken. -/
def unregisteredObjects (t : Table) : Finset ObjectId :=
  {o ∈ t.objectIds | ¬ (t.object o).registered}

/-- A scope in which something is declared is the body of an object that a container has
taken. -/
def Housed (t : Table) : Prop :=
  ∀ s, (t.scope s).objects ≠ [] → ∃ o, (t.object o).body? = some s ∧ (t.object o).registered

variable {t : Table} {m n : Node} {o : ObjectId} {s : ScopeId}

private theorem mem_registeredObjects (h : t.SingleOwner) (hbounds : t.InBounds) :
    o ∈ t.registeredObjects ↔ (t.object o).registered := by
  simp only [registeredObjects, Finset.mem_filter, mem_objectIds, and_iff_right_iff_imp]
  intro hregistered
  by_contra ho
  have hheld := h.held o
  rw [hbounds.timesHeld_eq_zero ho, if_pos hregistered] at hheld
  cases hheld

private theorem card_unregisteredObjects (t : Table) :
    t.unregisteredObjects.card = (t.objectIds \ t.registeredObjects).card := by
  unfold unregisteredObjects registeredObjects
  rw [Finset.filter_not]

/-- A path leads to a root, or goes on from a node to one that it owns. -/
private theorem reached_iff : t.Reached n ↔ n ∈ t.roots ∨ ∃ m, t.Reached m ∧ n ∈ t.owned m := by
  constructor
  · rintro ⟨p, hp⟩
    cases hp with
    | root hroot => exact .inl (List.mem_of_getElem? hroot)
    | own hp howned => exact .inr ⟨_, ⟨_, hp⟩, List.mem_of_getElem? howned⟩
  · rintro (hroot | ⟨m, hm, howned⟩)
    · exact .root hroot
    · exact hm.own howned

/-- An object is reached as a root or through a scope that lists it. -/
private theorem reached_object_iff : t.Reached (.object o) ↔
    .object o ∈ t.roots ∨ ∃ s, t.Reached (.scope s) ∧ o ∈ (t.scope s).objects := by
  rw [reached_iff]
  refine or_congr_right ⟨?_, ?_⟩
  · rintro ⟨m, hm, howned⟩
    obtain ⟨s, rfl, ho⟩ := object_mem_owned.mp howned
    exact ⟨s, hm, ho⟩
  · rintro ⟨s, hs, ho⟩
    exact ⟨_, hs, object_mem_owned.mpr ⟨s, rfl, ho⟩⟩

/-- A scope is reached through the object whose body it is. -/
theorem reached_scope_iff : t.Reached (.scope s) ↔
    ∃ o, t.Reached (.object o) ∧ (t.object o).body? = some s := by
  rw [reached_iff]
  constructor
  · rintro (hroot | ⟨m, hm, howned⟩)
    · obtain ⟨o, _, heq⟩ := List.mem_map.mp hroot
      cases heq
    · obtain ⟨o, rfl, hbody⟩ := scope_mem_owned.mp howned
      exact ⟨o, hm, hbody⟩
  · rintro ⟨o, ho, hbody⟩
    exact .inr ⟨_, ho, scope_mem_owned.mpr ⟨o, rfl, hbody⟩⟩

theorem Reached.of_owns (h : t.Reached m) (hn : t.Owns m n) : t.Reached n := by
  induction hn with
  | single howned => exact h.own howned
  | tail _ howned ih => exact ih.own howned

/-- What ownership reaches, a container has taken. -/
private theorem SingleOwner.registered_of_reached (h : t.SingleOwner) (ho : t.Reached (.object o)) :
    (t.object o).registered := by
  obtain hroot | ⟨s, _, hlisted⟩ := reached_object_iff.mp ho
  · exact h.registered_iff.mpr (.inl hroot)
  · exact h.registered_iff.mpr (.inr ⟨s, hlisted⟩)

/-- Where nothing owns itself, there is a first node on every way of ownership. -/
private theorem Acyclic.wellFoundedOn (h : t.Acyclic) : {n | n ∈ t.nodes}.WellFoundedOn t.Owns := by
  have : Std.Irrefl t.Owns := ⟨h⟩
  have : IsTrans Node t.Owns := ⟨fun _ _ _ => Relation.TransGen.trans⟩
  have : IsStrictOrder Node t.Owns := {}
  exact t.nodes.finite_toSet.wellFoundedOn

/-- If whatever lists an object is the body of one that a container has taken, and nothing owns
itself, then the way from such an object back through its owners ends at a root. -/
theorem SingleOwner.reached_of_registered (h : t.SingleOwner) (hbounds : t.InBounds)
    (hhoused : t.Housed) (hacyclic : t.Acyclic) (ho : (t.object o).registered) :
    t.Reached (.object o) := by
  have hnode {p : ObjectId} (hp : (t.object p).registered) : Node.object p ∈ t.nodes :=
    mem_nodes_object.mpr
      (mem_objectIds.mp (Finset.mem_filter.mp ((mem_registeredObjects h hbounds).mpr hp)).1)
  refine hacyclic.wellFoundedOn.induction (P := fun n => ∀ o, n = .object o →
    (t.object o).registered → t.Reached n) (hnode ho) ?_ o rfl ho
  rintro _ _ ih o rfl ho
  obtain hroot | ⟨s, hlisted⟩ := h.registered_iff.mp ho
  · exact .root hroot
  · obtain ⟨p, hbody, hp⟩ := hhoused s (List.ne_nil_of_mem hlisted)
    have hs : Node.scope s ∈ t.owned (.object p) := scope_mem_owned.mpr ⟨p, rfl, hbody⟩
    have ho : Node.object o ∈ t.owned (.scope s) := object_mem_owned.mpr ⟨s, rfl, hlisted⟩
    have howner := ih (.object p) (hnode hp) ((Owns.single hs).tail ho) p rfl hp
    exact (howner.own hs).own ho

/-- If every object that a container has taken is reached, each way of ownership that begins at
one of them leads back to a root. -/
private theorem housed_and_acyclic_of_reached (h : t.SingleOwner) (hforest : t.IsForest)
    (hreached : ∀ o, (t.object o).registered → t.Reached (.object o)) :
    t.Housed ∧ t.Acyclic := by
  have hlisted {o : ObjectId} {s : ScopeId} (ho : o ∈ (t.scope s).objects) :
      t.Reached (.object o) :=
    hreached o (h.registered_iff.mpr (.inr ⟨s, ho⟩))
  constructor
  · intro s hne
    obtain ⟨o, ho⟩ := List.exists_mem_of_ne_nil _ hne
    obtain hroot | ⟨u, hu, ho'⟩ := reached_object_iff.mp (hlisted ho)
    · exact absurd (object_mem_owned.mpr ⟨s, rfl, ho⟩) (h.not_owned_root hroot)
    · obtain rfl := h.eq_of_mem_objects ho' ho
      obtain ⟨p, hp, hbody⟩ := reached_scope_iff.mp hu
      exact ⟨p, hbody, h.registered_of_reached hp⟩
  · intro n hcycle
    refine hforest.not_reached_of_owns_self hcycle ?_
    cases n with
    | object o =>
      obtain ⟨m, _, howned⟩ := Relation.TransGen.tail'_iff.mp hcycle
      obtain ⟨s, rfl, ho⟩ := object_mem_owned.mp howned
      exact hlisted ho
    | scope s =>
      obtain ⟨m, howned, hback⟩ := Relation.TransGen.head'_iff.mp hcycle
      obtain ⟨o, ho, rfl⟩ := mem_owned_scope.mp howned
      obtain heq | howns := Relation.reflTransGen_iff_eq_or_transGen.mp hback
      · cases heq
      · exact (hlisted ho).of_owns howns

private theorem reachedObjects_subset (h : t.SingleOwner) (hbounds : t.InBounds) :
    t.reachedObjects ⊆ t.registeredObjects := by
  intro o ho
  rw [mem_reachedObjects hbounds] at ho
  exact (mem_registeredObjects h hbounds).mpr (h.registered_of_reached ho)

private theorem reachedObjects_eq_iff (h : t.SingleOwner) (hbounds : t.InBounds)
    (hforest : t.IsForest) :
    t.reachedObjects = t.registeredObjects ↔ t.Housed ∧ t.Acyclic := by
  constructor
  · intro hsame
    refine housed_and_acyclic_of_reached h hforest fun o ho => ?_
    rwa [← mem_registeredObjects h hbounds, ← hsame, mem_reachedObjects hbounds] at ho
  · rintro ⟨hhoused, hacyclic⟩
    refine (reachedObjects_subset h hbounds).antisymm fun o ho => ?_
    rw [mem_registeredObjects h hbounds] at ho
    rw [mem_reachedObjects hbounds]
    exact h.reached_of_registered hbounds hhoused hacyclic ho

private theorem registeredObjects_subset (t : Table) : t.registeredObjects ⊆ t.objectIds :=
  Finset.filter_subset _ _

private theorem mem_log_orphaned {r : Report} {k : Nat} :
    Event.orphaned k ∈ r.log ↔ 0 < k ∧ k = r.orphanObjects := by
  by_cases hlost : 0 < r.orphanObjects
  · simp only [Report.log, if_pos hlost, List.cons_append, List.nil_append, List.mem_cons,
      Event.orphaned.injEq, List.not_mem_nil, reduceCtorEq, or_false]
    exact ⟨fun heq => ⟨heq ▸ hlost, heq⟩, fun h => h.2⟩
  · simp only [Report.log, if_neg hlost, List.nil_append, List.mem_cons, List.not_mem_nil,
      reduceCtorEq, or_false, false_iff]
    rintro ⟨hpos, rfl⟩
    exact hlost hpos

/-- What the report tells of the objects that no container took. -/
structure CountsOrphans (t : Table) (r : Report) : Prop where
  unregistered_le : t.unregisteredObjects.card ≤ r.orphanObjects
  le_registered : r.objects ≤ t.registeredObjects.card
  orphans_eq_iff : r.orphanObjects = t.unregisteredObjects.card ↔ t.Housed ∧ t.Acyclic
  objects_eq_iff : r.objects = t.registeredObjects.card ↔ t.Housed ∧ t.Acyclic
  warning_iff : ∀ k, Event.orphaned k ∈ t.releaseLog ↔ 0 < k ∧ k = r.orphanObjects

/-- **What the orphan count means.** The release of a table counts as orphans the objects that no
container took, and besides them those that were declared where no ownership leads: in a scope
that is no body, in the body of an object that no container took, or in a cycle. The two numbers
agree exactly if there is nothing of that sort, and then the other objects are those that a
container took. The warning gives the number of orphans, whatever they are. -/
theorem Reachable.orphans_eq_unregistered_iff (h : t.Reachable) :
    ∃ r, t.release = .ok r ∧ t.CountsOrphans r := by
  have hbounds := h.inBounds
  have hforest := h.isForest
  obtain ⟨r, hr⟩ := hforest.release hbounds
  have hcounts := counts_of_release hbounds hr
  have hsub := reachedObjects_subset h.singleOwner hbounds
  have hle := Finset.card_le_card hsub
  have hsame : t.reachedObjects.card = t.registeredObjects.card ↔ t.Housed ∧ t.Acyclic := by
    rw [← reachedObjects_eq_iff h.singleOwner hbounds hforest]
    exact ⟨fun hcard => Finset.eq_of_subset_of_card_le hsub hcard.ge, congrArg Finset.card⟩
  have htotal := Finset.card_sdiff_add_card_eq_card (hsub.trans t.registeredObjects_subset)
  have htotal' := Finset.card_sdiff_add_card_eq_card t.registeredObjects_subset
  have horphans : r.orphanObjects = t.unregisteredObjects.card ↔
      t.reachedObjects.card = t.registeredObjects.card := by
    rw [hcounts.orphanObjects, card_unregisteredObjects]
    omega
  refine ⟨r, hr, ?_, ?_, horphans.trans hsame, ?_, fun k => ?_⟩
  · rw [hcounts.orphanObjects, card_unregisteredObjects]
    omega
  · rw [hcounts.objects]
    exact hle
  · rw [hcounts.objects]
    exact hsame
  · rw [releaseLog, hr]
    exact mem_log_orphaned

/-- Besides the variable that was never declared, the report counts the two routines of the
cycle, which were. -/
theorem orphans_crosswise : ((initial 15).after crosswise).Reachable ∧
    ∃ r, ((initial 15).after crosswise).release = .ok r ∧ r.orphanObjects = 3 ∧
      ((initial 15).after crosswise).unregisteredObjects.card = 1 ∧
      ¬ (((initial 15).after crosswise).Housed ∧ ((initial 15).after crosswise).Acyclic) := by
  obtain ⟨r, hr, hcounts⟩ := reachable_crosswise.orphans_eq_unregistered_iff
  have hreport : ((initial 15).after crosswise).release = .ok ⟨8, 6, 6, 0, 3, 2⟩ := by
    decide +kernel
  obtain rfl := Except.ok.inj (hr.symm.trans hreport)
  have hcard : ((initial 15).after crosswise).unregisteredObjects.card = 1 := by decide +kernel
  refine ⟨reachable_crosswise, _, hr, rfl, hcard, fun h => ?_⟩
  have hequal := hcounts.orphans_eq_iff.mpr h
  rw [hcard] at hequal
  cases hequal

/-- A variable is declared in the body of a procedure that is never declared itself. -/
def undeclaredHost : List Step :=
  [.command (.create .procedure "p"), .command (.enter ⟨5⟩), .command (.create .var "v"),
   .command (.declare ⟨8⟩)]

/-- Of the two orphans that the report counts and the warning names, one was declared. -/
theorem orphans_ne_unregistered_undeclaredHost : (initial 15).Admits undeclaredHost ∧
    ((initial 15).after undeclaredHost).release = .ok ⟨7, 5, 6, 0, 2, 1⟩ ∧
    ((initial 15).after undeclaredHost).unregisteredObjects.card = 1 ∧
    ((initial 15).after undeclaredHost).registeredObjects.card = 8 ∧
    Event.orphaned 2 ∈ ((initial 15).after undeclaredHost).releaseLog := by
  decide +kernel

end BlockScope.Table
