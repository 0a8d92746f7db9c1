import BlockScope.Proofs.Session.Reachable

namespace BlockScope

/-- The type or value that is recorded, if there is one. -/
def Attributes.recorded? : Attributes → Option Assignment
  | .constant value => value.map .constant
  | .alias actual => actual.map .alias
  | .var ty _ => ty.map .var
  | .function _ result _ => result.map .function
  | .parameter ty _ _ => ty.map .parameter
  | .program _ | .procedure .. => none

/-- What a step makes of the record on `o`, given the result of the step: an accepted record takes
the place of the one before, and nothing else matters. -/
def Step.onRecord (s : Step) (o : ObjectId) (result : Except SemanticError Reply)
    (record : Option Assignment) : Option Assignment :=
  match s, result with
  | .command (.assign p a), .ok _ => if p = o then some a else record
  | _, _ => record

namespace Attributes

variable {attributes : Attributes} {a : Assignment}

theorem recorded?_assign (h : attributes.kind = a.kind) :
    (attributes.assign a).recorded? = some a := by
  cases attributes <;> cases a <;> cases h <;> rfl

@[simp] theorem recorded?_addParam (attributes : Attributes) (o : ObjectId) :
    (attributes.addParam o).recorded? = attributes.recorded? := by
  cases attributes <;> rfl

theorem kind_of_recorded? (h : attributes.recorded? = some a) : a.kind = attributes.kind := by
  cases attributes <;> simp [recorded?] at h <;> obtain ⟨_, _, rfl⟩ := h <;> rfl

/-- A record adds to the rest of the attributes all that there is to know. -/
theorem eq_assign_of_recorded? (h : attributes.recorded? = some a) :
    attributes = attributes.bare.assign a := by
  cases attributes <;> simp [recorded?] at h <;> obtain ⟨_, rfl, rfl⟩ := h <;> rfl

theorem eq_bare_of_recorded? (h : attributes.recorded? = none) : attributes = attributes.bare := by
  cases attributes <;> simp [recorded?] at h <;> simp [bare, h]

end Attributes

namespace Table

/-- The record on `o` after a session that begins with `record`. -/
def recordAfter (t : Table) (o : ObjectId) (record : Option Assignment) :
    List Step → Option Assignment
  | [] => record
  | s :: steps => (t.step s).table.recordAfter o (s.onRecord o (t.step s).result record) steps

variable {t : Table} {o : ObjectId}

/-- Of the operations other than records, none changes what is recorded. -/
private theorem recorded?_step_of_not_assign (h : t.InBounds) (ho : t.HasObject o)
    {action : Step} (hother : ∀ p a, action ≠ .command (.assign p a)) :
    ((t.step action).table.object o).attributes.recorded? =
      (t.object o).attributes.recorded? := by
  have heffect := t.step_effect action
  generalize (t.step action).table = after at heffect ⊢
  cases heffect with
  | none => rfl
  | @create b name hlength hfirst => rw [ho.object_allocate]
  | createScope => rfl
  | assign hkind => exact absurd rfl (hother _ _)
  | enter hopen houter => rfl
  | exit hcurrent => rfl
  | declare hcurrent hfresh =>
    rw [attributes_enlist]
    split
    · rw [Attributes.recorded?_addParam]
    · rfl
  | loadReference => rw [Program.reference.object_load h ho]

theorem recorded?_step (h : t.InBounds) (ho : t.HasObject o) (action : Step) :
    ((t.step action).table.object o).attributes.recorded? =
      action.onRecord o (t.step action).result (t.object o).attributes.recorded? := by
  cases action with
  | query q => rfl
  | command c =>
    cases c with
    | assign p a =>
      change ((t.assign p a).table.object o).attributes.recorded? =
        Step.onRecord _ o ((t.assign p a).map fun _ => Reply.done).result _
      obtain ⟨e, hrefused⟩ | ⟨haccepted, hkind⟩ := t.assign_cases p a
      · rw [hrefused]
        rfl
      · rw [haccepted]
        change ((t.modifyObject p (·.assign a)).object o).attributes.recorded? =
          if p = o then some a else (t.object o).attributes.recorded?
        rw [object_modifyObject]
        by_cases heq : p = o
        · subst heq
          rw [if_pos ⟨rfl, ho⟩, if_pos rfl]
          exact Attributes.recorded?_assign hkind
        · rw [if_neg fun hsame => heq hsame.1.symm, if_neg heq]
    | _ => exact recorded?_step_of_not_assign h ho nofun

/-- The last record on an object counts, whatever else happens in a session. -/
theorem recorded?_after (h : t.InBounds) (ho : t.HasObject o)
    {steps : List Step} (hadmits : t.Admits steps) :
    ((t.after steps).object o).attributes.recorded? =
      t.recordAfter o (t.object o).attributes.recorded? steps := by
  induction steps generalizing t with
  | nil => rfl
  | cons s steps ih =>
    have hleads := step_leadsTo h hadmits.1
    have hrest := ih (h.leadsTo hleads) (hleads.within.object ho) hadmits.2
    rw [recorded?_step h ho] at hrest
    exact hrest

/-- A record is replaced, but it is never taken away. -/
theorem isSome_recordAfter (t : Table) (o : ObjectId) {record : Option Assignment}
    (hsome : record.isSome) (steps : List Step) : (t.recordAfter o record steps).isSome := by
  induction steps generalizing t record with
  | nil => exact hsome
  | cons s steps ih =>
    apply ih
    unfold Step.onRecord
    split
    · split
      · rfl
      · exact hsome
    · exact hsome

end Table

end BlockScope
