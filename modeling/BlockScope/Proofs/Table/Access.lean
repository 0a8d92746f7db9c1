import BlockScope.Table.Change
import BlockScope.Table.Create

namespace BlockScope

theorem ObjectId.eq_iff {o p : ObjectId} : o = p ↔ o.index = p.index := by
  cases o
  cases p
  simp

theorem ScopeId.eq_iff {s u : ScopeId} : s = u ↔ s.index = u.index := by
  cases s
  cases u
  simp

namespace Attributes

@[simp] theorem kind_assign (attributes : Attributes) (a : Assignment) :
    (attributes.assign a).kind = attributes.kind := by
  cases attributes <;> cases a <;> rfl

@[simp] theorem body?_assign (attributes : Attributes) (a : Assignment) :
    (attributes.assign a).body? = attributes.body? := by
  cases attributes <;> cases a <;> rfl

@[simp] theorem params?_assign (attributes : Attributes) (a : Assignment) :
    (attributes.assign a).params? = attributes.params? := by
  cases attributes <;> cases a <;> rfl

@[simp] theorem kind_addParam (attributes : Attributes) (o : ObjectId) :
    (attributes.addParam o).kind = attributes.kind := by
  cases attributes <;> rfl

@[simp] theorem body?_addParam (attributes : Attributes) (o : ObjectId) :
    (attributes.addParam o).body? = attributes.body? := by
  cases attributes <;> rfl

@[simp] theorem params?_addParam (attributes : Attributes) (o : ObjectId) :
    (attributes.addParam o).params? = attributes.params?.map (· ++ [o]) := by
  cases attributes <;> rfl

/-- Only routines have a list that a parameter could join. -/
theorem addParam_eq_self {attributes : Attributes} (h : attributes.kind.isRoutine = false)
    (o : ObjectId) : attributes.addParam o = attributes := by
  cases attributes with
  | function params result body => cases h
  | procedure params body => cases h
  | _ => rfl

/-- The attributes without the type or value that is recorded on them. -/
def bare : Attributes → Attributes
  | program body => .program body
  | constant _ => .constant none
  | .alias _ => .alias none
  | var _ home => .var none home
  | function params _ body => .function params none body
  | procedure params body => .procedure params body
  | parameter _ mode owner => .parameter none mode owner

@[simp] theorem bare_assign (attributes : Attributes) (a : Assignment) :
    (attributes.assign a).bare = attributes.bare := by
  cases attributes <;> cases a <;> rfl

@[simp] theorem kind_bare (attributes : Attributes) : attributes.bare.kind = attributes.kind := by
  cases attributes <;> rfl

@[simp] theorem body?_bare (attributes : Attributes) :
    attributes.bare.body? = attributes.body? := by
  cases attributes <;> rfl

@[simp] theorem params?_bare (attributes : Attributes) :
    attributes.bare.params? = attributes.params? := by
  cases attributes <;> rfl

@[simp] theorem mode?_bare (attributes : Attributes) :
    attributes.bare.mode? = attributes.mode? := by
  cases attributes <;> rfl

end Attributes

namespace Table

variable {t : Table}

theorem body?_isSome_of_hasBody {o : Object} (h : o.kind.hasBody) : ∃ s, o.body? = some s := by
  unfold Object.kind at h
  unfold Object.body?
  cases hattributes : o.attributes with
  | program body => exact ⟨body, rfl⟩
  | function params result body => exact ⟨body, rfl⟩
  | procedure params body => exact ⟨body, rfl⟩
  | _ =>
    rw [hattributes] at h
    cases h

private theorem hasBody_of_isRoutine {kind : Kind} (h : kind.isRoutine) : kind.hasBody := by
  cases kind with
  | function => rfl
  | procedure => rfl
  | _ => cases h

theorem body?_isSome_of_isRoutine {o : Object} (h : o.kind.isRoutine) : ∃ s, o.body? = some s :=
  body?_isSome_of_hasBody (hasBody_of_isRoutine h)

theorem params?_isSome_of_isRoutine {o : Object} (h : o.kind.isRoutine) :
    ∃ params, o.params? = some params := by
  unfold Object.kind at h
  unfold Object.params?
  cases hattributes : o.attributes with
  | function params result body => exact ⟨params, rfl⟩
  | procedure params body => exact ⟨params, rfl⟩
  | _ =>
    rw [hattributes] at h
    cases h

theorem isRoutine_of_params? {o : Object} {params : List ObjectId} (h : o.params? = some params) :
    o.kind.isRoutine := by
  unfold Object.params? at h
  unfold Object.kind
  cases hattributes : o.attributes with
  | function params result body => rfl
  | procedure params body => rfl
  | _ =>
    rw [hattributes] at h
    cases h

/-- A handle of no object reads as the object that stands for nothing. -/
theorem object_of_not_hasObject {o : ObjectId} (h : ¬ t.HasObject o) : t.object o = default := by
  have hnone : t.objects[o.index]? = none := Array.getElem?_eq_none (Nat.le_of_not_lt h)
  rw [object, hnone, Option.getD_none]

theorem scope_of_not_hasScope {s : ScopeId} (h : ¬ t.HasScope s) : t.scope s = default := by
  have hnone : t.scopes[s.index]? = none := Array.getElem?_eq_none (Nat.le_of_not_lt h)
  rw [scope, hnone, Option.getD_none]

/-- What lists an object is a scope of the table. -/
theorem hasScope_of_mem_objects {s : ScopeId} {o : ObjectId} (h : o ∈ (t.scope s).objects) :
    t.HasScope s := by
  refine Decidable.byContradiction fun hnone => ?_
  rw [scope_of_not_hasScope hnone] at h
  cases h

/-- What lies in another scope is a scope of the table. -/
theorem hasScope_of_outer {s u : ScopeId} (h : (t.scope s).outer = some u) : t.HasScope s := by
  refine Decidable.byContradiction fun hnone => ?_
  rw [scope_of_not_hasScope hnone] at h
  cases h

theorem not_hasObject_nextObject : ¬ t.HasObject t.nextObject :=
  Nat.lt_irrefl _

theorem not_hasScope_nextScope : ¬ t.HasScope t.nextScope :=
  Nat.lt_irrefl _

theorem HasObject.ne_nextObject {o : ObjectId} (h : t.HasObject o) : o ≠ t.nextObject := by
  rintro rfl
  exact not_hasObject_nextObject h

theorem HasScope.ne_nextScope {s : ScopeId} (h : t.HasScope s) : s ≠ t.nextScope := by
  rintro rfl
  exact not_hasScope_nextScope h

@[simp] theorem hasObject_modifyObject {o p : ObjectId} {f : Object → Object} :
    (t.modifyObject o f).HasObject p ↔ t.HasObject p := by
  simp [HasObject, modifyObject]

@[simp] theorem hasScope_modifyObject {o : ObjectId} {s : ScopeId} {f : Object → Object} :
    (t.modifyObject o f).HasScope s ↔ t.HasScope s :=
  Iff.rfl

@[simp] theorem hasObject_modifyScope {o : ObjectId} {s : ScopeId} {f : Scope → Scope} :
    (t.modifyScope s f).HasObject o ↔ t.HasObject o :=
  Iff.rfl

@[simp] theorem hasScope_modifyScope {s u : ScopeId} {f : Scope → Scope} :
    (t.modifyScope s f).HasScope u ↔ t.HasScope u := by
  simp [HasScope, modifyScope]

/-- A change of the object `o` is seen at `o` alone, and only if there is such an object. -/
theorem object_modifyObject (o p : ObjectId) (f : Object → Object) :
    (t.modifyObject o f).object p =
      if p = o ∧ t.HasObject o then f (t.object p) else t.object p := by
  by_cases hp : t.HasObject p
  · have hlt : p.index < t.objects.size := hp
    by_cases heq : p = o
    · subst heq
      simp [object, modifyObject, hp, hlt, Array.getElem_modify]
    · have hne : ¬ o.index = p.index := fun h => heq (ObjectId.eq_iff.mpr h.symm)
      simp [object, modifyObject, heq, Array.getElem?_modify, hne]
  · have hcond : ¬ (p = o ∧ t.HasObject o) := by
      rintro ⟨rfl, h⟩
      exact hp h
    rw [if_neg hcond, object_of_not_hasObject hp, object_of_not_hasObject (by simpa using hp)]

@[simp] theorem scope_modifyObject (o : ObjectId) (s : ScopeId) (f : Object → Object) :
    (t.modifyObject o f).scope s = t.scope s :=
  rfl

@[simp] theorem object_modifyScope (s : ScopeId) (o : ObjectId) (f : Scope → Scope) :
    (t.modifyScope s f).object o = t.object o :=
  rfl

/-- A change of the scope `s` is seen at `s` alone, and only if there is such a scope. -/
theorem scope_modifyScope (s u : ScopeId) (f : Scope → Scope) :
    (t.modifyScope s f).scope u =
      if u = s ∧ t.HasScope s then f (t.scope u) else t.scope u := by
  by_cases hu : t.HasScope u
  · have hlt : u.index < t.scopes.size := hu
    by_cases heq : u = s
    · subst heq
      simp [scope, modifyScope, hu, hlt, Array.getElem_modify]
    · have hne : ¬ s.index = u.index := fun h => heq (ScopeId.eq_iff.mpr h.symm)
      simp [scope, modifyScope, heq, Array.getElem?_modify, hne]
  · have hcond : ¬ (u = s ∧ t.HasScope s) := by
      rintro ⟨rfl, h⟩
      exact hu h
    rw [if_neg hcond, scope_of_not_hasScope hu, scope_of_not_hasScope (by simpa using hu)]

/-- What a change of an object leaves alone is the same for all objects. -/
theorem map_modifyObject {β : Type} {g : Object → β} (t : Table) (o : ObjectId)
    {f : Object → Object} (h : ∀ p, g (f p) = g p) :
    (t.modifyObject o f).objects.map g = t.objects.map g := by
  refine Array.ext (by simp [modifyObject]) fun i _ _ => ?_
  simp only [modifyObject, Array.getElem_map, Array.getElem_modify]
  split
  · exact h _
  · rfl

@[simp] theorem registered_assign (o p : ObjectId) (a : Assignment) :
    ((t.modifyObject o (·.assign a)).object p).registered = (t.object p).registered := by
  rw [object_modifyObject]
  split <;> rfl

@[simp] theorem name_assign (o p : ObjectId) (a : Assignment) :
    (t.modifyObject o (·.assign a)).name p = t.name p := by
  unfold name
  rw [object_modifyObject]
  split <;> rfl

@[simp] theorem kind_assign (o p : ObjectId) (a : Assignment) :
    ((t.modifyObject o (·.assign a)).object p).kind = (t.object p).kind := by
  rw [object_modifyObject]
  split <;> simp [Object.kind, Object.assign]

@[simp] theorem body?_assign (o p : ObjectId) (a : Assignment) :
    ((t.modifyObject o (·.assign a)).object p).body? = (t.object p).body? := by
  rw [object_modifyObject]
  split <;> simp [Object.body?, Object.assign]

@[simp] theorem params?_assign (o p : ObjectId) (a : Assignment) :
    ((t.modifyObject o (·.assign a)).object p).params? = (t.object p).params? := by
  rw [object_modifyObject]
  split <;> simp [Object.params?, Object.assign]

@[simp] theorem bare_assign (o p : ObjectId) (a : Assignment) :
    ((t.modifyObject o (·.assign a)).object p).attributes.bare = (t.object p).attributes.bare := by
  rw [object_modifyObject]
  split <;> simp [Object.assign]

end Table

end BlockScope
