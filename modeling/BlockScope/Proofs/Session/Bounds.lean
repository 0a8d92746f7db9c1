import BlockScope.Proofs.Session.Transition

namespace BlockScope

/-- Every handle among the attributes is one of the table's own. -/
def Attributes.InBounds (t : Table) : Attributes → Prop
  | program body => t.HasScope body
  | .constant _ | .alias _ => True
  | var _ home => ∀ s ∈ home, t.HasScope s
  | function params _ body => (∀ p ∈ params, t.HasObject p) ∧ t.HasScope body
  | procedure params body => (∀ p ∈ params, t.HasObject p) ∧ t.HasScope body
  | parameter _ _ owner => t.HasObject owner

/-- Every handle of the scope is one of the table's own. -/
structure Scope.InBounds (t : Table) (s : Scope) : Prop where
  objects : ∀ o ∈ s.objects, t.HasObject o
  owner : t.HasObject s.owner
  outer : ∀ u ∈ s.outer, t.HasScope u

namespace Table

/-- No handle that is stored anywhere in the table dangles. -/
structure InBounds (t : Table) : Prop where
  program : ∀ o ∈ t.program, t.HasObject o
  globals : ∀ o ∈ t.globals, t.HasObject o
  current : ∀ s ∈ t.current, t.HasScope s
  attributes : ∀ o, t.HasObject o → (t.object o).attributes.InBounds t
  scope : ∀ s, t.HasScope s → (t.scope s).InBounds t

/-- The second table has all the handles of the first. -/
structure Within (t t' : Table) : Prop where
  object : ∀ {o}, t.HasObject o → t'.HasObject o
  scope : ∀ {s}, t.HasScope s → t'.HasScope s

end Table

variable {t t' : Table}

theorem Attributes.InBounds.mono {attributes : Attributes} (h : attributes.InBounds t)
    (hwithin : t.Within t') : attributes.InBounds t' := by
  cases attributes with
  | program body => exact hwithin.scope h
  | constant value => trivial
  | «alias» actual => trivial
  | var ty home => exact fun s hs => hwithin.scope (h s hs)
  | function params result body => exact ⟨fun p hp => hwithin.object (h.1 p hp), hwithin.scope h.2⟩
  | procedure params body => exact ⟨fun p hp => hwithin.object (h.1 p hp), hwithin.scope h.2⟩
  | parameter ty mode owner => exact hwithin.object h

theorem Scope.InBounds.mono {s : Scope} (h : s.InBounds t) (hwithin : t.Within t') :
    s.InBounds t' where
  objects o ho := hwithin.object (h.objects o ho)
  owner := hwithin.object h.owner
  outer u hu := hwithin.scope (h.outer u hu)

theorem Attributes.InBounds.assign {attributes : Attributes} (h : attributes.InBounds t)
    (a : Assignment) : (attributes.assign a).InBounds t := by
  cases attributes <;> cases a <;> exact h

theorem Attributes.InBounds.addParam {attributes : Attributes} (h : attributes.InBounds t)
    {p : ObjectId} (hp : t.HasObject p) : (attributes.addParam p).InBounds t := by
  cases attributes with
  | function params result body =>
    refine ⟨fun o ho => ?_, h.2⟩
    obtain ho | ho := List.mem_append.mp ho
    · exact h.1 o ho
    · rwa [List.mem_singleton.mp ho]
  | procedure params body =>
    refine ⟨fun o ho => ?_, h.2⟩
    obtain ho | ho := List.mem_append.mp ho
    · exact h.1 o ho
    · rwa [List.mem_singleton.mp ho]
  | program body => exact h
  | constant value => exact h
  | «alias» actual => exact h
  | var ty home => exact h
  | parameter ty mode owner => exact h

theorem Scope.InBounds.add {s : Scope} (h : s.InBounds t) {o : ObjectId} (ho : t.HasObject o) :
    (s.add o).InBounds t where
  objects p hp := by
    obtain hp | hp := List.mem_append.mp hp
    · exact h.objects p hp
    · rwa [List.mem_singleton.mp hp]
  owner := h.owner
  outer := h.outer

namespace Table

theorem Transition.within (h : t.Transition t') : t.Within t' := by
  cases h with
  | create name hfits hlength hfirst =>
    exact ⟨fun ho => hasObject_allocate.mpr (.inl ho), fun hs => hasScope_allocate.mpr (.inl hs)⟩
  | createScope howner houter => exact ⟨id, fun hs => hasScope_createScope.mpr (.inl hs)⟩
  | assign ho hkind => exact ⟨hasObject_modifyObject.mpr, id⟩
  | enter hs hopen houter => exact ⟨id, id⟩
  | exit hcurrent => exact ⟨id, id⟩
  | declare hcurrent ho hfresh => exact ⟨hasObject_enlist.mpr, hasScope_enlist.mpr⟩

theorem Within.trans {t'' : Table} (h : t.Within t') (h' : t'.Within t'') : t.Within t'' :=
  ⟨fun ho => h'.object (h.object ho), fun hs => h'.scope (h.scope hs)⟩

theorem LeadsTo.within (h : t.LeadsTo t') : t.Within t' :=
  h.preserves (fun hstep hbefore => Within.trans hbefore hstep.within) ⟨id, id⟩

/-- The new object is the owner of its body, and all else that it refers to was there
before. -/
theorem InBounds.allocate (h : t.InBounds) {b : Blueprint} (name : String) (hfits : b.Fits t) :
    (t.allocate b name).InBounds := by
  have hwithin : t.Within (t.allocate b name) :=
    ⟨fun ho => hasObject_allocate.mpr (.inl ho), fun hs => hasScope_allocate.mpr (.inl hs)⟩
  have hnew : (t.allocate b name).HasObject t.nextObject := hasObject_allocate.mpr (.inr rfl)
  refine ⟨fun o ho => ?_, fun o ho => hwithin.object (h.globals o ho),
    fun s hs => hwithin.scope (h.current s hs), fun o ho => ?_, fun s hs => ?_⟩
  · by_cases hkind : b.kind = .program
    · simp only [Table.allocate, if_pos hkind, Option.mem_some] at ho
      rwa [← ho]
    · simp only [Table.allocate, if_neg hkind] at ho
      exact hwithin.object (h.program o ho)
  · rw [object_allocate]
    obtain hold | rfl := hasObject_allocate.mp ho
    · rw [if_neg hold.ne_nextObject]
      exact (h.attributes o hold).mono hwithin
    · rw [if_pos rfl]
      have hbody (hb : b.kind.hasBody) : (t.allocate b name).HasScope t.nextScope :=
        hasScope_allocate.mpr (.inr ⟨hb, rfl⟩)
      cases b with
      | program => exact hbody rfl
      | constant => trivial
      | «alias» => trivial
      | var => exact fun s hs => hwithin.scope (h.current s hs)
      | function => exact ⟨by simp, hbody rfl⟩
      | procedure => exact ⟨by simp, hbody rfl⟩
      | parameter mode owner => exact hwithin.object hfits
  · rw [scope_allocate]
    obtain hold | ⟨hbody, rfl⟩ := hasScope_allocate.mp hs
    · rw [if_neg fun hnext => hold.ne_nextScope hnext.2]
      exact (h.scope s hold).mono hwithin
    · rw [if_pos ⟨hbody, rfl⟩]
      refine ⟨by simp, hnew, fun u hu => hwithin.scope (h.current u ?_)⟩
      by_cases hkind : b.kind = .program
      · simp [hkind] at hu
      · simpa [hkind] using hu

theorem InBounds.createScope (h : t.InBounds) {owner : ObjectId} {outer : Option ScopeId}
    (howner : t.HasObject owner) (houter : ∀ s ∈ outer, t.HasScope s) :
    (t.createScope owner outer).table.InBounds := by
  have hwithin : t.Within (t.createScope owner outer).table :=
    ⟨id, fun hs => hasScope_createScope.mpr (.inl hs)⟩
  refine ⟨h.program, h.globals, fun s hs => hwithin.scope (h.current s hs),
    fun o ho => (h.attributes o ho).mono hwithin, fun s hs => ?_⟩
  rw [scope_createScope]
  obtain hold | rfl := hasScope_createScope.mp hs
  · rw [if_neg hold.ne_nextScope]
    exact (h.scope s hold).mono hwithin
  · rw [if_pos rfl]
    exact ⟨by simp, howner, fun u hu => hwithin.scope (houter u hu)⟩

/-- A change of one object breaks nothing if its own handles stay in bounds. -/
theorem InBounds.modifyObject (h : t.InBounds) {o : ObjectId} {f : Object → Object}
    (hf : t.HasObject o → (f (t.object o)).attributes.InBounds t) :
    (t.modifyObject o f).InBounds := by
  have hwithin : t.Within (t.modifyObject o f) := ⟨hasObject_modifyObject.mpr, id⟩
  refine ⟨fun p hp => hwithin.object (h.program p hp),
    fun p hp => hwithin.object (h.globals p hp), h.current, fun p hp => ?_,
    fun s hs => (h.scope s hs).mono hwithin⟩
  rw [object_modifyObject]
  split
  · rename_i hsame
    obtain ⟨rfl, ho⟩ := hsame
    exact (hf ho).mono hwithin
  · exact (h.attributes p (hasObject_modifyObject.mp hp)).mono hwithin

/-- A change of one scope breaks nothing if its own handles stay in bounds. -/
theorem InBounds.modifyScope (h : t.InBounds) {s : ScopeId} {f : Scope → Scope}
    (hf : t.HasScope s → (f (t.scope s)).InBounds t) : (t.modifyScope s f).InBounds := by
  have hwithin : t.Within (t.modifyScope s f) := ⟨id, hasScope_modifyScope.mpr⟩
  refine ⟨h.program, h.globals, fun u hu => hwithin.scope (h.current u hu),
    fun o ho => (h.attributes o ho).mono hwithin, fun u hu => ?_⟩
  rw [scope_modifyScope]
  split
  · rename_i hsame
    obtain ⟨rfl, hs⟩ := hsame
    exact (hf hs).mono hwithin
  · exact (h.scope u (hasScope_modifyScope.mp hu)).mono hwithin

theorem InBounds.listParam (h : t.InBounds) (s : ScopeId) {o : ObjectId} (ho : t.HasObject o) :
    (t.listParam s o).InBounds := by
  unfold Table.listParam
  split
  · exact h.modifyObject fun howner => (h.attributes _ howner).addParam ho
  · exact h

theorem InBounds.enlist (h : t.InBounds) (s : ScopeId) {o : ObjectId} (ho : t.HasObject o) :
    (t.enlist s o).InBounds := by
  have hlisted := h.listParam s ho
  have hadded : ((t.listParam s o).modifyScope s (·.add o)).InBounds :=
    hlisted.modifyScope fun hs => (hlisted.scope s hs).add (hasObject_listParam.mpr ho)
  exact hadded.modifyObject fun hdeclared => hadded.attributes o hdeclared

/-- The pointer to the current scope may point to any scope of the table, or nowhere. -/
theorem InBounds.moveTo (h : t.InBounds) {current : Option ScopeId}
    (hcurrent : ∀ s ∈ current, t.HasScope s) : { t with current }.InBounds := by
  have hwithin : t.Within { t with current } := ⟨id, id⟩
  exact ⟨h.program, h.globals, hcurrent, fun o ho => (h.attributes o ho).mono hwithin,
    fun s hs => (h.scope s hs).mono hwithin⟩

theorem InBounds.transition (hstep : t.Transition t') (h : t.InBounds) : t'.InBounds := by
  cases hstep with
  | create name hfits hlength hfirst => exact h.allocate name hfits
  | createScope howner houter => exact h.createScope howner houter
  | assign ho hkind => exact h.modifyObject fun ho => (h.attributes _ ho).assign _
  | enter hs hopen houter =>
    refine h.moveTo fun u hu => ?_
    obtain rfl := Option.mem_some.mp hu
    exact hs
  | exit hcurrent => exact h.moveTo (h.scope _ (h.current _ hcurrent)).outer
  | declare hcurrent ho hfresh => exact h.enlist _ ho

/-- A body that the table knows of is one of its scopes. -/
theorem InBounds.body (h : t.InBounds) {o : ObjectId} {s : ScopeId}
    (hbody : (t.object o).body? = some s) : t.HasScope s := by
  by_cases ho : t.HasObject o
  · have hattributes := h.attributes o ho
    unfold Object.body? at hbody
    cases hkind : (t.object o).attributes <;>
      simp_all [Attributes.body?, Attributes.InBounds]
  · rw [object_of_not_hasObject ho] at hbody
    cases hbody

theorem InBounds.leadsTo (h : t.InBounds) (hsteps : t.LeadsTo t') : t'.InBounds :=
  hsteps.preserves InBounds.transition h

end Table

end BlockScope
