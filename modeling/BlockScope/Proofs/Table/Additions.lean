import BlockScope.Proofs.Table.Access

namespace BlockScope.Table

variable {t : Table}

@[simp] theorem kind_newAttributes (b : Blueprint) : (t.newAttributes b).kind = b.kind := by
  cases b <;> rfl

theorem body?_newAttributes (b : Blueprint) :
    (t.newAttributes b).body? = if b.kind.hasBody then some t.nextScope else none := by
  cases b <;> rfl

theorem params?_newAttributes (b : Blueprint) :
    (t.newAttributes b).params? = if b.kind.isRoutine then some [] else none := by
  cases b <;> rfl

theorem hasObject_allocate {b : Blueprint} {name : String} {o : ObjectId} :
    (t.allocate b name).HasObject o ↔ t.HasObject o ∨ o = t.nextObject := by
  simp only [HasObject, allocate, Array.size_push, nextObject, ObjectId.eq_iff]
  omega

theorem hasScope_allocate {b : Blueprint} {name : String} {s : ScopeId} :
    (t.allocate b name).HasScope s ↔ t.HasScope s ∨ (b.kind.hasBody ∧ s = t.nextScope) := by
  by_cases hbody : b.kind.hasBody
  · simp only [HasScope, allocate, newScopes, hbody, if_true, Array.size_push, nextScope,
      ScopeId.eq_iff, true_and]
    omega
  · simp [HasScope, allocate, newScopes, hbody]

theorem object_allocate (b : Blueprint) (name : String) (o : ObjectId) :
    (t.allocate b name).object o =
      if o = t.nextObject then ⟨name, t.newAttributes b, b.kind = .program⟩ else t.object o := by
  by_cases heq : o = t.nextObject
  · subst heq
    simp [object, allocate, nextObject]
  · have hne : o.index ≠ t.objects.size := fun h => heq (ObjectId.eq_iff.mpr h)
    simp [object, allocate, heq, Array.getElem?_push, hne]

theorem HasObject.object_allocate {o : ObjectId} (h : t.HasObject o) (b : Blueprint)
    (name : String) : (t.allocate b name).object o = t.object o := by
  rw [Table.object_allocate, if_neg h.ne_nextObject]

theorem name_allocate (b : Blueprint) (name : String) {o : ObjectId} (ho : t.HasObject o) :
    (t.allocate b name).name o = t.name o := by
  unfold Table.name
  rw [ho.object_allocate]

@[simp] theorem globals_allocate (b : Blueprint) (name : String) :
    (t.allocate b name).globals = t.globals :=
  rfl

@[simp] theorem current_allocate (b : Blueprint) (name : String) :
    (t.allocate b name).current = t.current :=
  rfl

theorem scope_allocate (b : Blueprint) (name : String) (s : ScopeId) :
    (t.allocate b name).scope s =
      if b.kind.hasBody ∧ s = t.nextScope then
        ⟨[], t.nextObject, if b.kind = .program then none else t.current⟩
      else t.scope s := by
  by_cases hbody : b.kind.hasBody
  · by_cases heq : s = t.nextScope
    · subst heq
      simp [scope, allocate, newScopes, hbody, nextScope]
    · have hne : s.index ≠ t.scopes.size := fun h => heq (ScopeId.eq_iff.mpr h)
      simp [scope, allocate, newScopes, hbody, heq, Array.getElem?_push, hne]
  · simp [scope, allocate, newScopes, hbody]

theorem HasScope.scope_allocate {s : ScopeId} (h : t.HasScope s) (b : Blueprint)
    (name : String) : (t.allocate b name).scope s = t.scope s := by
  rw [Table.scope_allocate, if_neg fun hnext => h.ne_nextScope hnext.2]

@[simp] theorem hasObject_createScope {owner o : ObjectId} {outer : Option ScopeId} :
    (t.createScope owner outer).table.HasObject o ↔ t.HasObject o :=
  Iff.rfl

theorem hasScope_createScope {owner : ObjectId} {outer : Option ScopeId} {s : ScopeId} :
    (t.createScope owner outer).table.HasScope s ↔ t.HasScope s ∨ s = t.nextScope := by
  simp only [HasScope, createScope, Outcome.accepted, Array.size_push, nextScope, ScopeId.eq_iff]
  omega

@[simp] theorem object_createScope (owner : ObjectId) (outer : Option ScopeId) (o : ObjectId) :
    (t.createScope owner outer).table.object o = t.object o :=
  rfl

theorem scope_createScope (owner : ObjectId) (outer : Option ScopeId) (s : ScopeId) :
    (t.createScope owner outer).table.scope s =
      if s = t.nextScope then ⟨[], owner, outer⟩ else t.scope s := by
  by_cases heq : s = t.nextScope
  · subst heq
    simp [scope, createScope, Outcome.accepted, nextScope]
  · have hne : s.index ≠ t.scopes.size := fun h => heq (ScopeId.eq_iff.mpr h)
    simp [scope, createScope, Outcome.accepted, heq, Array.getElem?_push, hne]

@[simp] theorem hasObject_listParam {s : ScopeId} {o p : ObjectId} :
    (t.listParam s o).HasObject p ↔ t.HasObject p := by
  unfold listParam
  split <;> simp

@[simp] theorem hasScope_listParam {s u : ScopeId} {o : ObjectId} :
    (t.listParam s o).HasScope u ↔ t.HasScope u := by
  unfold listParam
  split <;> rfl

@[simp] theorem scope_listParam (s u : ScopeId) (o : ObjectId) :
    (t.listParam s o).scope u = t.scope u := by
  unfold listParam
  split <;> rfl

theorem object_listParam (s : ScopeId) (o p : ObjectId) :
    (t.listParam s o).object p =
      if (t.object o).kind = .parameter ∧ p = (t.scope s).owner ∧ t.HasObject p then
        (t.object p).addParam o
      else t.object p := by
  unfold listParam
  by_cases hparam : (t.object o).kind = .parameter
  · rw [if_pos hparam, object_modifyObject]
    by_cases howner : p = (t.scope s).owner
    · subst howner
      simp [hparam]
    · simp [howner]
  · simp [hparam]

@[simp] theorem hasObject_enlist {s : ScopeId} {o p : ObjectId} :
    (t.enlist s o).HasObject p ↔ t.HasObject p := by
  simp [enlist]

@[simp] theorem hasScope_enlist {s u : ScopeId} {o : ObjectId} :
    (t.enlist s o).HasScope u ↔ t.HasScope u := by
  simp [enlist]

theorem size_scopes_enlist (s : ScopeId) (o : ObjectId) :
    (t.enlist s o).scopes.size = t.scopes.size := by
  unfold enlist listParam
  split <;> simp [modifyObject, modifyScope]

@[simp] theorem globals_enlist (s : ScopeId) (o : ObjectId) :
    (t.enlist s o).globals = t.globals := by
  unfold enlist listParam
  split <;> rfl

@[simp] theorem program_enlist (s : ScopeId) (o : ObjectId) :
    (t.enlist s o).program = t.program := by
  unfold enlist listParam
  split <;> rfl

@[simp] theorem current_enlist (s : ScopeId) (o : ObjectId) :
    (t.enlist s o).current = t.current := by
  unfold enlist listParam
  split <;> rfl

/-- A declaration changes the list of the scope that takes the object and no other list. -/
theorem scope_enlist (s u : ScopeId) (o : ObjectId) :
    (t.enlist s o).scope u = if u = s ∧ t.HasScope s then (t.scope u).add o else t.scope u := by
  simp [enlist, scope_modifyScope]

/-- The scope has taken the object. -/
theorem mem_objects_enlist {s : ScopeId} (hs : t.HasScope s) (o : ObjectId) :
    o ∈ ((t.enlist s o).scope s).objects := by
  rw [scope_enlist, if_pos ⟨rfl, hs⟩]
  exact List.mem_concat_self

@[simp] theorem owner_enlist (s u : ScopeId) (o : ObjectId) :
    ((t.enlist s o).scope u).owner = (t.scope u).owner := by
  rw [scope_enlist]
  split <;> rfl

@[simp] theorem outer_enlist (s u : ScopeId) (o : ObjectId) :
    ((t.enlist s o).scope u).outer = (t.scope u).outer := by
  rw [scope_enlist]
  split <;> rfl

theorem object_enlist (s : ScopeId) (o p : ObjectId) :
    (t.enlist s o).object p =
      if p = o ∧ t.HasObject o then ((t.listParam s o).object p).register
      else (t.listParam s o).object p := by
  simp [enlist, object_modifyObject]

@[simp] theorem name_enlist (s : ScopeId) (o p : ObjectId) :
    (t.enlist s o).name p = t.name p := by
  unfold name
  rw [object_enlist, object_listParam]
  split <;> split <;> rfl

/-- What neither a parameter list nor a declaration touches is the same for all objects after a
declaration. -/
theorem map_enlist {β : Type} {g : Object → β} (t : Table) (s : ScopeId) (o : ObjectId)
    (hparam : ∀ p : Object, g (p.addParam o) = g p) (hregister : ∀ p : Object, g p.register = g p) :
    (t.enlist s o).objects.map g = t.objects.map g := by
  have hlisted : (t.listParam s o).objects.map g = t.objects.map g := by
    unfold listParam
    split
    · exact map_modifyObject t _ hparam
    · rfl
  exact (map_modifyObject _ o hregister).trans hlisted

theorem registered_enlist (s : ScopeId) (o p : ObjectId) :
    ((t.enlist s o).object p).registered =
      ((t.object p).registered || decide (p = o ∧ t.HasObject o)) := by
  rw [object_enlist, object_listParam]
  by_cases hdeclared : p = o ∧ t.HasObject o
  · rw [if_pos hdeclared]
    simp [hdeclared, Object.register]
  · rw [if_neg hdeclared]
    split <;> simp [hdeclared, Object.addParam]

theorem attributes_enlist (s : ScopeId) (o p : ObjectId) :
    ((t.enlist s o).object p).attributes =
      if (t.object o).kind = .parameter ∧ p = (t.scope s).owner ∧ t.HasObject p then
        (t.object p).attributes.addParam o
      else (t.object p).attributes := by
  rw [object_enlist, object_listParam]
  split <;> split <;> rfl

@[simp] theorem kind_enlist (s : ScopeId) (o p : ObjectId) :
    ((t.enlist s o).object p).kind = (t.object p).kind := by
  unfold Object.kind
  rw [attributes_enlist]
  split <;> simp

@[simp] theorem body?_enlist (s : ScopeId) (o p : ObjectId) :
    ((t.enlist s o).object p).body? = (t.object p).body? := by
  unfold Object.body?
  rw [attributes_enlist]
  split <;> simp

/-- A parameter joins the list of the routine whose scope takes it. -/
theorem params?_enlist (s : ScopeId) (o p : ObjectId) :
    ((t.enlist s o).object p).params? =
      if (t.object o).kind = .parameter ∧ p = (t.scope s).owner ∧ t.HasObject p then
        (t.object p).params?.map (· ++ [o])
      else (t.object p).params? := by
  unfold Object.params?
  rw [attributes_enlist]
  split <;> simp

end BlockScope.Table
