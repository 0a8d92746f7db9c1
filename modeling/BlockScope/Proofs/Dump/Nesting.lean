import BlockScope.Dump
import BlockScope.Proofs.Ownership.Orphan

namespace BlockScope.Table

/-- The forest shows the objects of the list, each with all that is nested in it. -/
inductive Unfolds (t : Table) : List ObjectId → Forest ObjectId → Prop
  | nil : Unfolds t [] .nil
  | cons {o : ObjectId} {rest : List ObjectId} {below after : Forest ObjectId}
      (hbelow : Unfolds t (t.contents o) below) (hafter : Unfolds t rest after) :
      Unfolds t (o :: rest) (.cons o below after)

/-- The objects of `around` are around those of the list, one in the other. -/
structure Around (t : Table) (around list : List ObjectId) : Prop where
  nodup : around.Nodup
  hasObject : ∀ a ∈ around, t.HasObject a
  owns : ∀ a ∈ around, ∀ o ∈ list, t.Owns (.object a) (.object o)

/-- The objects with the property are in the table, none of them is nested in itself, and with
each go those that it contains. -/
structure Grounded (t : Table) (P : ObjectId → Prop) : Prop where
  hasObject : ∀ o, P o → t.HasObject o
  not_owns_self : ∀ o, P o → ¬ t.Owns (.object o) (.object o)
  contents : ∀ o, P o → ∀ q ∈ t.contents o, P q

variable {t : Table} {P : ObjectId → Prop} {o : ObjectId} {around list rest : List ObjectId}
  {f g : Forest ObjectId} {depth : Nat} {r : Report}

/-- An object owns what it contains, through its body. -/
private theorem owns_of_mem_contents {a : ObjectId} (ho : o ∈ t.contents a) :
    t.Owns (.object a) (.object o) := by
  unfold contents at ho
  cases hbody : (t.object a).body? with
  | none => simp [hbody] at ho
  | some s =>
    rw [hbody] at ho
    exact (Owns.single (mem_owned_object.mpr ⟨s, hbody, rfl⟩)).tail
      (mem_owned_scope.mpr ⟨o, ho, rfl⟩)

private theorem unfold_succ_cons : t.unfold (depth + 1) (o :: rest) =
    (t.unfold depth (t.contents o)).bind fun below =>
      (t.unfold (depth + 1) rest).bind fun after => some (.cons o below after) :=
  rfl

/-- Whatever depth it was allowed, an unfolding that there is shows everything. -/
private theorem Unfolds.of_unfold (h : t.unfold depth list = some f) : t.Unfolds list f := by
  induction depth generalizing list f with
  | zero =>
    cases list with
    | nil =>
      obtain rfl := Option.some.inj h
      exact .nil
    | cons o rest => cases h
  | succ depth ihDepth =>
    induction list generalizing f with
    | nil =>
      obtain rfl := Option.some.inj h
      exact .nil
    | cons o rest ihRest =>
      rw [unfold_succ_cons] at h
      obtain ⟨below, hbelow, h⟩ := Option.bind_eq_some_iff.mp h
      obtain ⟨after, hafter, h⟩ := Option.bind_eq_some_iff.mp h
      obtain rfl := Option.some.inj h
      exact .cons (ihDepth hbelow) (ihRest hafter)

theorem Unfolds.mem_preorder (h : t.Unfolds list f) (ho : o ∈ f.preorder) :
    o ∈ list ∨ ∃ a ∈ list, t.Owns (.object a) (.object o) := by
  induction h with
  | nil => cases ho
  | @cons root rest below after _ _ ihBelow ihAfter =>
    rw [Forest.preorder, List.mem_cons, List.mem_append] at ho
    obtain rfl | hbelow | hafter := ho
    · exact .inl List.mem_cons_self
    · refine .inr ⟨root, List.mem_cons_self, ?_⟩
      obtain hcontained | ⟨a, ha, howns⟩ := ihBelow hbelow
      · exact owns_of_mem_contents hcontained
      · exact Relation.TransGen.trans (owns_of_mem_contents ha) howns
    · obtain hlisted | ⟨a, ha, howns⟩ := ihAfter hafter
      · exact .inl (List.mem_cons_of_mem root hlisted)
      · exact .inr ⟨a, List.mem_cons_of_mem root ha, howns⟩

/-- A release that is not refused reaches no object that the table does not have. -/
private theorem hasObject_of_release (h : t.release = .ok r) (ho : t.Reached (.object o)) :
    t.HasObject o := by
  obtain ⟨sweep, hsweep, _⟩ := release_eq_ok_iff.mp h
  obtain ⟨_, hperm, hreached⟩ := sweep_ok hsweep
  have hmem : .object o ∈ sweep.reached ++ sweep.unreached :=
    List.mem_append_left _ ((hreached _).mpr ho)
  exact mem_nodes_object.mp (hperm.mem_iff.mp hmem)

namespace Around

theorem nil (t : Table) (list : List ObjectId) : t.Around [] list :=
  ⟨.nil, nofun, nofun⟩

/-- Nesting is no deeper than the table has objects. -/
theorem length_le (h : t.Around around list) : around.length ≤ t.objects.size := by
  have hsub : around.toFinset ⊆ t.objectIds := fun a ha =>
    mem_objectIds.mpr (h.hasObject a (List.mem_toFinset.mp ha))
  rw [← List.toFinset_card_of_nodup h.nodup, ← card_objectIds]
  exact Finset.card_le_card hsub

/-- An object that is not nested in itself is around what it contains and is none of those that
are around itself. -/
theorem enter (h : t.Around around list) (hgrounded : t.Grounded P) (hP : P o) (ho : o ∈ list) :
    t.Around (o :: around) (t.contents o) := by
  have hfresh : o ∉ around := fun hmem => hgrounded.not_owns_self o hP (h.owns o hmem o ho)
  refine ⟨List.nodup_cons.mpr ⟨hfresh, h.nodup⟩, ?_, ?_⟩
  · exact List.forall_mem_cons.mpr ⟨hgrounded.hasObject o hP, h.hasObject⟩
  · refine List.forall_mem_cons.mpr ⟨fun q => owns_of_mem_contents, fun a ha q hq => ?_⟩
    exact Relation.TransGen.trans (h.owns a ha o ho) (owns_of_mem_contents hq)

end Around

/-- A list unfolds if what its objects contain does, at one level less. -/
private theorem exists_unfold_succ
    (h : ∀ o ∈ list, ∃ below, t.unfold depth (t.contents o) = some below) :
    ∃ f, t.unfold (depth + 1) list = some f := by
  induction list with
  | nil => exact ⟨.nil, rfl⟩
  | cons o rest ih =>
    obtain ⟨⟨below, hbelow⟩, hrest⟩ := List.forall_mem_cons.mp h
    obtain ⟨after, hafter⟩ := ih hrest
    exact ⟨.cons o below after, by rw [unfold_succ_cons, hbelow, hafter]; rfl⟩

/-- Where nothing is nested in itself, a depth that makes up for the objects around the list is
deep enough. -/
private theorem Grounded.exists_unfold (h : t.Grounded P) (hlist : ∀ o ∈ list, P o)
    (haround : t.Around around list) (hdepth : t.objects.size ≤ depth + around.length) :
    ∃ f, t.unfold depth list = some f := by
  induction depth generalizing list around with
  | zero =>
    cases list with
    | nil => exact ⟨.nil, rfl⟩
    | cons o rest =>
      have hle := (haround.enter h (hlist o List.mem_cons_self) List.mem_cons_self).length_le
      rw [List.length_cons] at hle
      omega
  | succ depth ih =>
    refine exists_unfold_succ fun o ho => ?_
    refine ih (h.contents o (hlist o ho)) (haround.enter h (hlist o ho) ho) ?_
    rw [List.length_cons]
    omega

theorem Grounded.exists_forest (h : t.Grounded P) (hlist : ∀ o ∈ list, P o) :
    ∃ f, t.forest? list = some f ∧ t.Unfolds list f := by
  obtain ⟨f, hf⟩ := h.exists_unfold hlist (.nil t list) (Nat.le_refl t.objects.size)
  exact ⟨f, hf, .of_unfold hf⟩

private theorem grounded_of_release (h : t.release = .ok r) :
    t.Grounded fun o => t.Reached (.object o) where
  hasObject _ ho := hasObject_of_release h ho
  not_owns_self _ ho howns := (isForest_of_release h).not_reached_of_owns_self howns ho
  contents _ ho _ hq := ho.of_owns (owns_of_mem_contents hq)

/-- Where the release is not refused, all that is reached can be shown as a forest. -/
theorem exists_forest (h : t.release = .ok r) (hreached : ∀ o ∈ list, t.Reached (.object o)) :
    ∃ f, t.forest? list = some f ∧ t.Unfolds list f :=
  (grounded_of_release h).exists_forest hreached

/-- What a list unfolds to is determined by the table. -/
theorem Unfolds.unique (hf : t.Unfolds list f) (hg : t.Unfolds list g) : f = g := by
  induction hf generalizing g with
  | nil =>
    cases hg
    rfl
  | cons _ _ ihBelow ihAfter =>
    cases hg with
    | cons hbelow hafter => rw [ihBelow hbelow, ihAfter hafter]

private theorem Unfolds.mem_preorder_of_mem (h : t.Unfolds list f) (ho : o ∈ list) :
    o ∈ f.preorder := by
  induction h with
  | nil => cases ho
  | cons _ _ _ ihAfter =>
    rw [Forest.preorder, List.mem_cons, List.mem_append]
    obtain rfl | hlater := List.mem_cons.mp ho
    · exact .inl rfl
    · exact .inr (.inr (ihAfter hlater))

private theorem Unfolds.mem_preorder_of_mem_contents (h : t.Unfolds list f) {q : ObjectId}
    (ho : o ∈ f.preorder) (hq : q ∈ t.contents o) : q ∈ f.preorder := by
  induction h with
  | nil => cases ho
  | cons hbelow _ ihBelow ihAfter =>
    rw [Forest.preorder, List.mem_cons, List.mem_append] at ho ⊢
    obtain rfl | ho | ho := ho
    · exact .inr (.inl (hbelow.mem_preorder_of_mem hq))
    · exact .inr (.inl (ihBelow ho))
    · exact .inr (.inr (ihAfter ho))

/-- An object owns what is in its body, and what that owns in turn. -/
private theorem Owns.exists_mem_contents {a : ObjectId} (h : t.Owns (.object a) (.object o)) :
    ∃ q ∈ t.contents a, q = o ∨ t.Owns (.object q) (.object o) := by
  obtain ⟨m, hm, hrest⟩ := Relation.TransGen.head'_iff.mp h
  obtain ⟨s, hbody, rfl⟩ := mem_owned_object.mp hm
  obtain hnode | ⟨n, hn, hrest⟩ := Relation.ReflTransGen.cases_head hrest
  · cases hnode
  · obtain ⟨q, hq, rfl⟩ := mem_owned_scope.mp hn
    refine ⟨q, by simpa only [contents, hbody] using hq, ?_⟩
    obtain hsame | howns := Relation.reflTransGen_iff_eq_or_transGen.mp hrest
    · exact .inl (Node.object.inj hsame).symm
    · exact .inr howns

/-- A forest shows all that its objects own. -/
private theorem Unfolds.mem_preorder_of_owns (h : t.Unfolds list f) {q : ObjectId}
    (ho : o ∈ f.preorder) (howns : t.Owns (.object o) (.object q)) : q ∈ f.preorder := by
  induction h generalizing o with
  | nil => cases ho
  | cons hbelow _ ihBelow ihAfter =>
    rw [Forest.preorder, List.mem_cons, List.mem_append] at ho ⊢
    obtain rfl | ho | ho := ho
    · obtain ⟨c, hc, rfl | howns⟩ := howns.exists_mem_contents
      · exact .inr (.inl (hbelow.mem_preorder_of_mem hc))
      · exact .inr (.inl (ihBelow (hbelow.mem_preorder_of_mem hc) howns))
    · exact .inr (.inl (ihBelow ho howns))
    · exact .inr (.inr (ihAfter ho howns))

/-- Nothing in a forest is nested in itself: it would stand again in the forest below itself, and
a forest is finite. -/
theorem Unfolds.not_owns_self (h : t.Unfolds list f) (ho : o ∈ f.preorder) :
    ¬ t.Owns (.object o) (.object o) := by
  induction h with
  | nil => cases ho
  | cons hbelow _ ihBelow ihAfter =>
    rw [Forest.preorder, List.mem_cons, List.mem_append] at ho
    obtain rfl | ho | ho := ho
    · intro howns
      obtain ⟨c, hc, hcase⟩ := howns.exists_mem_contents
      have hcbelow := hbelow.mem_preorder_of_mem hc
      obtain rfl | hback := hcase
      · exact ihBelow hcbelow howns
      · exact ihBelow (hbelow.mem_preorder_of_owns hcbelow hback) howns
    · exact ihBelow ho
    · exact ihAfter ho

private theorem InBounds.hasObject_of_owns (hbounds : t.InBounds) {n : Node}
    (h : t.Owns n (.object o)) : t.HasObject o := by
  obtain ⟨m, _, hm⟩ := Relation.TransGen.tail'_iff.mp h
  obtain ⟨s, rfl, ho⟩ := object_mem_owned.mp hm
  exact (hbounds.scope s (hasScope_of_mem_objects ho)).objects o ho

theorem Unfolds.grounded (h : t.Unfolds list f) (hbounds : t.InBounds)
    (hlist : ∀ o ∈ list, t.HasObject o) : t.Grounded (· ∈ f.preorder) where
  hasObject o ho := by
    obtain hlisted | ⟨a, _, howns⟩ := h.mem_preorder ho
    · exact hlist o hlisted
    · exact hbounds.hasObject_of_owns howns
  not_owns_self _ ho := h.not_owns_self ho
  contents _ ho _ hq := h.mem_preorder_of_mem_contents ho hq

/-- The depth of an unfolding does not cut off a finite one. -/
theorem Unfolds.forest?_eq (h : t.Unfolds list f) (hbounds : t.InBounds)
    (hlist : ∀ o ∈ list, t.HasObject o) : t.forest? list = some f := by
  have hlisted : ∀ o ∈ list, o ∈ f.preorder := fun o => h.mem_preorder_of_mem
  obtain ⟨g, hg, hunfolds⟩ := (h.grounded hbounds hlist).exists_forest hlisted
  rw [hg, hunfolds.unique h]

end BlockScope.Table
