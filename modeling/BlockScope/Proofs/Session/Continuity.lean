import BlockScope.Proofs.Session.Bounds

namespace BlockScope.Table

/-- The second table still has what sessions never change of the first: the limit on names, the
predeclared routines, and the owner and the outer scope of every scope. -/
structure Continues (t t' : Table) : Prop extends Within t t' where
  limit : t'.maxIdentLength = t.maxIdentLength
  globals : t'.globals = t.globals
  owner : ∀ {s}, t.HasScope s → (t'.scope s).owner = (t.scope s).owner
  outer : ∀ {s}, t.HasScope s → (t'.scope s).outer = (t.scope s).outer

variable {t t' : Table}

theorem Continues.refl (t : Table) : t.Continues t :=
  ⟨⟨id, id⟩, rfl, rfl, fun _ => rfl, fun _ => rfl⟩

theorem Continues.trans {t'' : Table} (h : t.Continues t') (h' : t'.Continues t'') :
    t.Continues t'' where
  toWithin := h.toWithin.trans h'.toWithin
  limit := h'.limit.trans h.limit
  globals := h'.globals.trans h.globals
  owner hs := (h'.owner (h.scope hs)).trans (h.owner hs)
  outer hs := (h'.outer (h.scope hs)).trans (h.outer hs)

/-- A new scope is linked to its surroundings once, when it is made. All other operations leave
the links alone. -/
theorem Transition.continues (h : t.Transition t') : t.Continues t' := by
  refine ⟨h.within, ?_, ?_, ?_, ?_⟩
  · cases h with
    | declare hcurrent ho hfresh =>
      unfold enlist listParam
      split <;> rfl
    | _ => rfl
  · cases h with
    | declare hcurrent ho hfresh => exact globals_enlist _ _
    | _ => rfl
  · intro s hs
    cases h with
    | create name hfits hlength hfirst =>
      rw [scope_allocate, if_neg fun hnext => hs.ne_nextScope hnext.2]
    | createScope howner houter => rw [scope_createScope, if_neg hs.ne_nextScope]
    | declare hcurrent ho hfresh => exact owner_enlist _ s _
    | _ => rfl
  · intro s hs
    cases h with
    | create name hfits hlength hfirst =>
      rw [scope_allocate, if_neg fun hnext => hs.ne_nextScope hnext.2]
    | createScope howner houter => rw [scope_createScope, if_neg hs.ne_nextScope]
    | declare hcurrent ho hfresh => exact outer_enlist _ s _
    | _ => rfl

theorem LeadsTo.continues (h : t.LeadsTo t') : t.Continues t' :=
  h.preserves (fun hstep hbefore => hbefore.trans hstep.continues) (.refl t)

/-- An object keeps the name it was made with. -/
theorem Transition.name_eq (h : t.Transition t') {o : ObjectId} (ho : t.HasObject o) :
    t'.name o = t.name o := by
  cases h with
  | create name hfits hlength hfirst => exact name_allocate _ name ho
  | assign ho' hkind => exact name_assign _ o _
  | declare hcurrent ho' hfresh => exact name_enlist _ _ o
  | _ => rfl

theorem LeadsTo.name_eq (h : t.LeadsTo t') {o : ObjectId} (ho : t.HasObject o) :
    t'.name o = t.name o := by
  have hboth := h.preserves (P := fun t' => t'.HasObject o ∧ t'.name o = t.name o)
    (fun hstep hbefore =>
      ⟨hstep.within.object hbefore.1, (hstep.name_eq hbefore.1).trans hbefore.2⟩)
    ⟨ho, rfl⟩
  exact hboth.2

end BlockScope.Table
