import BlockScope.Proofs.Ownership.Forest
import BlockScope.Proofs.Session.Orderly

namespace BlockScope.Table

/-- The first node owns the second, itself or through other nodes. -/
def Owns (t : Table) : Node → Node → Prop :=
  Relation.TransGen fun m n => n ∈ t.owned m

/-- Nothing owns itself. -/
def Acyclic (t : Table) : Prop :=
  ∀ n, ¬ t.Owns n n

/-- Declaring the object would be accepted, in a scope that the object owns. -/
def ClosesCycle (t : Table) (o : ObjectId) : Prop :=
  ∃ s, t.current = some s ∧ (t.object o).registered = false ∧ t.Owns (.object o) (.scope s)

variable {t t' : Table} {m n : Node} {o : ObjectId} {s : ScopeId}

theorem mem_owned_object : n ∈ t.owned (.object o) ↔
    ∃ s, (t.object o).body? = some s ∧ n = .scope s := by
  simp [owned, eq_comm]

theorem mem_owned_scope : n ∈ t.owned (.scope s) ↔
    ∃ o ∈ (t.scope s).objects, n = .object o := by
  simp [owned, eq_comm]

/-- Objects are owned by the scopes that list them. -/
theorem object_mem_owned : .object o ∈ t.owned m ↔ ∃ s, m = .scope s ∧ o ∈ (t.scope s).objects := by
  cases m <;> simp [mem_owned_object, mem_owned_scope]

/-- Scopes are owned by the objects whose bodies they are. -/
theorem scope_mem_owned : .scope s ∈ t.owned m ↔
    ∃ o, m = .object o ∧ (t.object o).body? = some s := by
  cases m <;> simp [mem_owned_object, mem_owned_scope]

theorem Owns.single (h : n ∈ t.owned m) : t.Owns m n :=
  Relation.TransGen.single h

theorem Owns.tail {k : Node} (h : t.Owns m n) (hk : k ∈ t.owned n) : t.Owns m k :=
  Relation.TransGen.tail h hk

/-- A new object owns its body, if it has one, and nothing else is new. -/
theorem mem_owned_allocate {b : Blueprint} {name : String} :
    n ∈ (t.allocate b name).owned m ↔
      n ∈ t.owned m ∨ (b.kind.hasBody ∧ m = .object t.nextObject ∧ n = .scope t.nextScope) := by
  cases m with
  | object p =>
    simp only [mem_owned_object, object_allocate, Node.object.injEq]
    by_cases hnew : p = t.nextObject
    · subst hnew
      have hnone : (t.object t.nextObject).body? = none := by
        rw [object_of_not_hasObject not_hasObject_nextObject]
        rfl
      have hbody := t.body?_newAttributes b
      rw [if_pos rfl, hnone]
      simp only [Object.body?, hbody]
      by_cases hhas : b.kind.hasBody <;> simp [hhas]
    · simp [hnew]
  | scope u =>
    simp only [mem_owned_scope, scope_allocate]
    by_cases hnew : b.kind.hasBody ∧ u = t.nextScope
    · have hempty : (t.scope t.nextScope).objects = [] := by
        rw [scope_of_not_hasScope not_hasScope_nextScope]
        rfl
      simp [hnew, hempty]
    · simp [hnew]

theorem mem_owned_createScope {owner : ObjectId} {outer : Option ScopeId} :
    n ∈ (t.createScope owner outer).table.owned m ↔ n ∈ t.owned m := by
  cases m with
  | object p => rfl
  | scope u =>
    simp only [mem_owned_scope, scope_createScope]
    by_cases hnew : u = t.nextScope
    · have hempty : (t.scope t.nextScope).objects = [] := by
        rw [scope_of_not_hasScope not_hasScope_nextScope]
        rfl
      simp [hnew, hempty]
    · simp [hnew]

theorem mem_owned_assign {a : Assignment} :
    n ∈ (t.modifyObject o (·.assign a)).owned m ↔ n ∈ t.owned m := by
  cases m with
  | object p => simp only [mem_owned_object, body?_assign]
  | scope u => rfl

theorem mem_owned_enlist (hs : t.HasScope s) :
    n ∈ (t.enlist s o).owned m ↔ n ∈ t.owned m ∨ (m = .scope s ∧ n = .object o) := by
  cases m with
  | object p => simp only [mem_owned_object, body?_enlist, reduceCtorEq, false_and, or_false]
  | scope u =>
    simp only [mem_owned_scope, scope_enlist, Node.scope.injEq]
    by_cases hsame : u = s
    · simp [hsame, hs, Scope.add, or_and_right, exists_or]
    · simp [hsame]

/-- Ownership only grows. -/
theorem Transition.mem_owned (hbounds : t.InBounds) (h : t.Transition t') (hn : n ∈ t.owned m) :
    n ∈ t'.owned m := by
  cases h with
  | create name hfits hlength hfirst => exact mem_owned_allocate.mpr (.inl hn)
  | createScope howner houter => exact mem_owned_createScope.mpr hn
  | assign ho hkind => exact mem_owned_assign.mpr hn
  | enter hs hopen houter => exact hn
  | exit hcurrent => exact hn
  | declare hcurrent ho hfresh =>
    exact (mem_owned_enlist (hbounds.current _ hcurrent)).mpr (.inl hn)

theorem Owns.mono (hgrows : ∀ {m n}, n ∈ t.owned m → n ∈ t'.owned m) (h : t.Owns m n) :
    t'.Owns m n :=
  Relation.TransGen.mono (fun _ _ hn => hgrows hn) m n h

private theorem Acyclic.anti (h : t'.Acyclic) (hgrows : ∀ {m n}, n ∈ t.owned m → n ∈ t'.owned m) :
    t.Acyclic :=
  fun n hn => h n (hn.mono hgrows)

/-- A cycle that has been closed stays. -/
theorem LeadsTo.acyclic (h : t.LeadsTo t') (hbounds : t.InBounds) (hacyclic : t'.Acyclic) :
    t.Acyclic := by
  have hgrows : t'.InBounds ∧ ∀ {m n}, n ∈ t.owned m → n ∈ t'.owned m :=
    h.preserves (P := fun t' => t'.InBounds ∧ ∀ {m n}, n ∈ t.owned m → n ∈ t'.owned m)
      (fun hstep hbefore => ⟨hbefore.1.transition hstep,
        fun hn => hstep.mem_owned hbefore.1 (hbefore.2 hn)⟩)
      ⟨hbounds, id⟩
  exact hacyclic.anti hgrows.2

/-- With one more edge, from `x` to `y`, what is owned was owned before or is owned through
the edge. -/
private theorem Owns.of_new_edge {x y : Node}
    (hedge : ∀ {m n}, n ∈ t'.owned m → n ∈ t.owned m ∨ (m = x ∧ n = y)) (h : t'.Owns m n) :
    t.Owns m n ∨ (Relation.ReflTransGen (fun m n => n ∈ t.owned m) m x ∧
      Relation.ReflTransGen (fun m n => n ∈ t.owned m) y n) := by
  induction h with
  | single howned =>
    obtain hold | ⟨rfl, rfl⟩ := hedge howned
    · exact .inl (.single hold)
    · exact .inr ⟨.refl, .refl⟩
  | tail _ howned ih =>
    obtain hold | ⟨rfl, rfl⟩ := hedge howned
    · obtain hbefore | ⟨hto, hfrom⟩ := ih
      · exact .inl (hbefore.tail hold)
      · exact .inr ⟨hto, hfrom.tail hold⟩
    · obtain hbefore | ⟨hto, _⟩ := ih
      · exact .inr ⟨hbefore.to_reflTransGen, .refl⟩
      · exact .inr ⟨hto, .refl⟩

/-- One more edge closes a cycle exactly if it leads back to where ownership led here from. -/
private theorem acyclic_iff_of_new_edge {x y : Node}
    (hedge : ∀ {m n}, n ∈ t'.owned m ↔ n ∈ t.owned m ∨ (m = x ∧ n = y)) (hne : y ≠ x) :
    t'.Acyclic ↔ t.Acyclic ∧ ¬ t.Owns y x := by
  have hgrows {m n : Node} (hn : n ∈ t.owned m) : n ∈ t'.owned m := hedge.mpr (.inl hn)
  constructor
  · intro h
    refine ⟨h.anti hgrows, fun hback => h y ?_⟩
    exact (hback.mono hgrows).tail (hedge.mpr (.inr ⟨rfl, rfl⟩))
  · rintro ⟨h, hback⟩ n hn
    obtain hold | ⟨hto, hfrom⟩ := hn.of_new_edge hedge.mp
    · exact h n hold
    · obtain heq | howns := Relation.reflTransGen_iff_eq_or_transGen.mp (hfrom.trans hto)
      · exact hne heq.symm
      · exact hback howns

private theorem not_owns_nextScope : ¬ t.Owns (.scope t.nextScope) n := by
  intro h
  obtain ⟨k, hk, _⟩ := Relation.TransGen.head'_iff.mp h
  rw [mem_owned_scope, scope_of_not_hasScope not_hasScope_nextScope] at hk
  obtain ⟨o, ho, _⟩ := hk
  cases ho

theorem Acyclic.allocate (h : t.Acyclic) (b : Blueprint) (name : String) :
    (t.allocate b name).Acyclic := by
  by_cases hbody : b.kind.hasBody
  · have hedge {m n : Node} : n ∈ (t.allocate b name).owned m ↔
        n ∈ t.owned m ∨ (m = .object t.nextObject ∧ n = .scope t.nextScope) := by
      rw [mem_owned_allocate, and_iff_right hbody]
    exact (acyclic_iff_of_new_edge hedge nofun).mpr ⟨h, not_owns_nextScope⟩
  · exact h.anti fun hn => (mem_owned_allocate.mp hn).resolve_right fun hnew => hbody hnew.1

private theorem acyclic_enlist_iff (hs : t.HasScope s) :
    (t.enlist s o).Acyclic ↔ t.Acyclic ∧ ¬ t.Owns (.object o) (.scope s) :=
  acyclic_iff_of_new_edge (mem_owned_enlist hs) nofun

/-- A new object owns no scope that was there before it. -/
private theorem not_owns_allocate {b : Blueprint} {name : String} (hs : t.HasScope s) :
    ¬ (t.allocate b name).Owns (.object t.nextObject) (.scope s) := by
  intro h
  have hnothing : ¬ t.Owns (.object t.nextObject) (.scope s) := by
    intro h
    obtain ⟨k, hk, _⟩ := Relation.TransGen.head'_iff.mp h
    rw [mem_owned_object, object_of_not_hasObject not_hasObject_nextObject] at hk
    obtain ⟨u, hu, _⟩ := hk
    cases hu
  obtain hold | ⟨_, hfrom⟩ := h.of_new_edge fun hn =>
    (mem_owned_allocate.mp hn).imp_right fun hnew => hnew.2
  · exact hnothing hold
  · obtain heq | howns := Relation.reflTransGen_iff_eq_or_transGen.mp hfrom
    · exact hs.ne_nextScope (Node.scope.inj heq)
    · exact not_owns_nextScope howns

/-- What is declared where it has just been made closes no cycle. -/
theorem Orderly.acyclic (hbounds : t.InBounds) (hstep : t.Orderly t') (h : t.Acyclic) :
    t'.Acyclic := by
  cases hstep with
  | program hlength hfirst => exact h.allocate .program _
  | @introduce s b name made hcurrent hkind hfits hlength hrecords =>
    have hs : t.HasScope s := hbounds.current s hcurrent
    have hmade : made.HasScope s ∧ made.Acyclic ∧
        ¬ made.Owns (.object t.nextObject) (.scope s) := by
      refine hrecords.preserves
        (P := fun made => made.HasScope s ∧ made.Acyclic ∧
          ¬ made.Owns (.object t.nextObject) (.scope s))
        (fun _ _ hbefore => ⟨hbefore.1, hbefore.2.1.anti mem_owned_assign.mp, fun howns =>
          hbefore.2.2 (howns.mono mem_owned_assign.mp)⟩) ?_
      exact ⟨hasScope_allocate.mpr (.inl hs), h.allocate b name, not_owns_allocate hs⟩
    exact (acyclic_enlist_iff hmade.1).mpr hmade.2
  | assign ho hkind => exact h.anti mem_owned_assign.mp
  | enter hs hopen houter => exact h
  | exit hcurrent => exact h

/-- A step closes a cycle exactly if it declares an object in a scope that the object owns. -/
theorem acyclic_step_iff (hbounds : t.InBounds) {action : Step} (hfits : action.Fits t) :
    (t.step action).table.Acyclic ↔
      t.Acyclic ∧ ∀ o, action = .command (.declare o) → ¬ t.ClosesCycle o := by
  constructor
  · intro h
    refine ⟨(step_leadsTo hbounds hfits).acyclic hbounds h, ?_⟩
    rintro o rfl ⟨s, hcurrent, hfresh, howns⟩
    rw [step_declare hcurrent hfresh] at h
    exact ((acyclic_enlist_iff (hbounds.current s hcurrent)).mp h).2 howns
  · rintro ⟨h, hopen⟩
    have heffect := t.step_effect action
    generalize (t.step action).table = after at heffect ⊢
    cases heffect with
    | none => exact h
    | @create b name hlength hfirst => exact h.allocate b name
    | createScope => exact h.anti mem_owned_createScope.mp
    | assign hkind => exact h.anti mem_owned_assign.mp
    | enter hunsealed houter => exact h
    | exit hcurrent => exact h
    | @declare s o hcurrent hfresh =>
      refine (acyclic_enlist_iff (hbounds.current s hcurrent)).mpr ⟨h, fun howns => ?_⟩
      exact hopen o rfl ⟨s, hcurrent, hfresh, howns⟩
    | loadReference =>
      exact (Program.reference.load_orderlyTo hbounds).preserves Orderly.acyclic hbounds h

/-- A session closes a cycle exactly if one of its steps does. -/
theorem acyclic_after_iff (hreachable : t.Reachable) {steps : List Step}
    (hadmits : t.Admits steps) : (t.after steps).Acyclic ↔ t.Acyclic ∧
      ∀ i (hi : i < steps.length) o, steps[i] = .command (.declare o) →
        ¬ (t.after (steps.take i)).ClosesCycle o :=
  hreachable.after_iff (P := Acyclic)
    (fun t action => ∀ o, action = .command (.declare o) → ¬ t.ClosesCycle o)
    (fun h hfits => acyclic_step_iff h.inBounds hfits) hadmits

/-- Where no scope lists an object with a body, ownership ends at once. -/
private theorem acyclic_of_flat (h : ∀ s, ∀ o ∈ (t.scope s).objects, (t.object o).body? = none) :
    t.Acyclic := by
  intro n hn
  obtain ⟨k, hk, hrest⟩ := Relation.TransGen.head'_iff.mp hn
  have hleaf {s : ScopeId} {o : ObjectId} (ho : o ∈ (t.scope s).objects) {l : Node} :
      l ∉ t.owned (.object o) := by
    rw [mem_owned_object, h s o ho]
    rintro ⟨u, hu, _⟩
    cases hu
  cases n with
  | scope s =>
    obtain ⟨o, ho, rfl⟩ := mem_owned_scope.mp hk
    obtain heq | ⟨l, hl, _⟩ := Relation.ReflTransGen.cases_head hrest
    · cases heq
    · exact hleaf ho hl
  | object o =>
    obtain ⟨l, _, hl⟩ := Relation.TransGen.tail'_iff.mp hn
    obtain ⟨u, rfl, ho⟩ := object_mem_owned.mp hl
    exact hleaf ho hk

theorem acyclic_initial (limit : Nat) : (initial limit).Acyclic := by
  refine acyclic_of_flat ?_
  rintro ⟨i⟩ o ho
  have hi : i < 5 := hasScope_of_mem_objects ho
  interval_cases i <;> simp [scope, scopes_initial] at ho <;> subst ho <;>
    simp [object, objects_initial, Object.body?, Attributes.body?]

/-- What a node on an ownership path owns is on a longer one. -/
private theorem PathTo.append_of_owns {p : List Nat} (hp : t.PathTo p m) (h : t.Owns m n) :
    ∃ q, q ≠ [] ∧ t.PathTo (p ++ q) n := by
  induction h with
  | single howned =>
    obtain ⟨i, hi⟩ := List.mem_iff_getElem?.mp howned
    exact ⟨[i], by simp, .own hp hi⟩
  | tail _ howned ih =>
    obtain ⟨q, hq, hpath⟩ := ih
    obtain ⟨i, hi⟩ := List.mem_iff_getElem?.mp howned
    refine ⟨q ++ [i], by simp, ?_⟩
    rw [← List.append_assoc]
    exact .own hpath hi

theorem IsForest.not_reached_of_owns_self (h : t.IsForest) (hn : t.Owns n n) : ¬ t.Reached n := by
  rintro ⟨p, hp⟩
  obtain ⟨q, hq, hlonger⟩ := hp.append_of_owns hn
  exact hq (List.self_eq_append_right.mp (h n p (p ++ q) hp hlonger))

/-- **Cycles of ownership.** After any session, ownership is free of cycles exactly if no accepted
declaration put an object into a scope that the object owned already. The cycles that there are
lie out of reach of the program and of the predeclared routines. -/
theorem acyclic_iff_no_declaration_inside {limit : Nat} {steps : List Step}
    (hadmits : (initial limit).Admits steps) :
    (((initial limit).after steps).Acyclic ↔
      ∀ i (hi : i < steps.length) o, steps[i] = .command (.declare o) →
        ¬ ((initial limit).after (steps.take i)).ClosesCycle o) ∧
      ∀ n, ((initial limit).after steps).Owns n n →
        ¬ ((initial limit).after steps).Reached n := by
  have hstart : (initial limit).Reachable := .initial limit
  refine ⟨?_, fun n hn => (hstart.after hadmits).isForest.not_reached_of_owns_self hn⟩
  rw [acyclic_after_iff hstart hadmits, and_iff_right (acyclic_initial limit)]

/-- The second of the crosswise declarations closes a cycle of two routines and their bodies, and
the release of the table does not reach it. -/
theorem cycle_crosswise : (initial 15).Admits crosswise ∧
    ¬ ((initial 15).after crosswise).Acyclic ∧
    ¬ ((initial 15).after crosswise).Reached (.object ⟨8⟩) := by
  have hadmits : (initial 15).Admits crosswise := by decide +kernel
  obtain ⟨hiff, hunreached⟩ := acyclic_iff_no_declaration_inside hadmits
  have howns (t : Table) (hp : Node.scope ⟨6⟩ ∈ t.owned (.object ⟨8⟩))
      (hq : Node.object ⟨9⟩ ∈ t.owned (.scope ⟨6⟩))
      (hbody : Node.scope ⟨7⟩ ∈ t.owned (.object ⟨9⟩)) :
      t.Owns (.object ⟨8⟩) (.scope ⟨7⟩) :=
    ((Owns.single hp).tail hq).tail hbody
  have hbefore : ((initial 15).after (crosswise.take 8)).ClosesCycle ⟨8⟩ := by
    refine ⟨⟨7⟩, by decide +kernel, by decide +kernel, ?_⟩
    exact howns _ (by decide +kernel) (by decide +kernel) (by decide +kernel)
  have hafter : ((initial 15).after crosswise).Owns (.object ⟨8⟩) (.scope ⟨7⟩) :=
    howns _ (by decide +kernel) (by decide +kernel) (by decide +kernel)
  refine ⟨hadmits, fun hacyclic => ?_, hunreached _ (hafter.tail (by decide +kernel))⟩
  exact hiff.mp hacyclic 8 (by decide) ⟨8⟩ rfl hbefore

/-- A procedure is made, its body is entered, and there it is declared itself. -/
def selfDeclared : List Step :=
  [.command (.create .procedure "p"), .command (.enter ⟨5⟩), .command (.declare ⟨7⟩)]

theorem not_acyclic_selfDeclared : (initial 15).Admits selfDeclared ∧
    ((initial 15).after selfDeclared).Owns (.object ⟨7⟩) (.object ⟨7⟩) ∧
    ¬ ((initial 15).after selfDeclared).Acyclic := by
  have hbody : Node.scope ⟨5⟩ ∈ ((initial 15).after selfDeclared).owned (.object ⟨7⟩) := by
    decide +kernel
  have hlisted : Node.object ⟨7⟩ ∈ ((initial 15).after selfDeclared).owned (.scope ⟨5⟩) := by
    decide +kernel
  have hcycle : ((initial 15).after selfDeclared).Owns (.object ⟨7⟩) (.object ⟨7⟩) :=
    (Owns.single hbody).tail hlisted
  exact ⟨by decide +kernel, hcycle, fun hacyclic => hacyclic _ hcycle⟩

end BlockScope.Table
