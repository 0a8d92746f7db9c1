import BlockScope.Proofs.Session.Continuity

namespace BlockScope

namespace Table

/-- Types and values have been recorded, and nothing else has happened. -/
def Records : Table → Table → Prop :=
  Relation.ReflTransGen fun t t' => ∃ o a, t.HasObject o ∧ (t.object o).kind = a.kind ∧
    t' = t.modifyObject o (·.assign a)

/-- One step of an orderly session. An object other than the program is made in an entered
scope and declared there before anything happens but records, and no scope is made by hand. -/
inductive Orderly (t : Table) : Table → Prop
  | program {name : String} (hlength : name.length ≤ t.maxIdentLength)
      (hfirst : t.program = none) : Orderly t (t.allocate .program name)
  | introduce {s : ScopeId} {b : Blueprint} {name : String} {made : Table}
      (hcurrent : t.current = some s) (hkind : b.kind ≠ .program) (hfits : b.Fits t)
      (hlength : name.length ≤ t.maxIdentLength) (hrecords : (t.allocate b name).Records made) :
      Orderly t (made.enlist s t.nextObject)
  | assign {o : ObjectId} {a : Assignment} (ho : t.HasObject o)
      (hkind : (t.object o).kind = a.kind) : Orderly t (t.modifyObject o (·.assign a))
  | enter {s : ScopeId} (hs : t.HasScope s) (hopen : (t.scope s).owner ∉ t.globals)
      (houter : (t.scope s).outer = t.current) : Orderly t { t with current := some s }
  | exit {s : ScopeId} (hcurrent : t.current = some s) :
      Orderly t { t with current := (t.scope s).outer }

/-- The second table comes from the first by any number of orderly steps. -/
def OrderlyTo : Table → Table → Prop :=
  Relation.ReflTransGen Orderly

variable {t t' : Table}

/-- What every record preserves is preserved by any number of them. -/
theorem Records.preserves {P : Table → Prop}
    (hassign : ∀ {t : Table} {o : ObjectId} {a : Assignment}, t.HasObject o →
      (t.object o).kind = a.kind → P t → P (t.modifyObject o (·.assign a)))
    (h : t.Records t') (hP : P t) : P t' := by
  induction h with
  | refl => exact hP
  | tail _ hlast ih =>
    obtain ⟨o, a, ho, hkind, rfl⟩ := hlast
    exact hassign ho hkind ih

theorem Records.leadsTo (h : t.Records t') : t.LeadsTo t' :=
  h.preserves (fun ho hkind hbefore => hbefore.trans (.single (.assign ho hkind))) (.refl t)

theorem Records.current_eq (h : t.Records t') : t'.current = t.current :=
  h.preserves (P := fun made => made.current = t.current) (fun _ _ => id) rfl

theorem Records.registered_eq (h : t.Records t') (o : ObjectId) :
    (t'.object o).registered = (t.object o).registered := by
  refine h.preserves (P := fun made => (made.object o).registered = (t.object o).registered)
    (fun _ _ hbefore => ?_) rfl
  rw [registered_assign]
  exact hbefore

/-- Whatever is orderly could be done by single operations. -/
theorem Orderly.leadsTo (h : t.Orderly t') : t.LeadsTo t' := by
  cases h with
  | program hlength hfirst =>
    exact .single (.create (b := .program) _ trivial hlength fun _ => hfirst)
  | @introduce s b name made hcurrent hkind hfits hlength hrecords =>
    have hcreate : t.LeadsTo (t.allocate b name) :=
      .single (.create name hfits hlength fun hprogram => absurd hprogram hkind)
    have hnew : (t.allocate b name).HasObject t.nextObject := hasObject_allocate.mpr (.inr rfl)
    have hfresh : ((t.allocate b name).object t.nextObject).registered = false := by
      simp [object_allocate, hkind]
    refine (hcreate.trans hrecords.leadsTo).trans (.single (.declare ?_ ?_ ?_))
    · rw [hrecords.current_eq]
      exact hcurrent
    · exact hrecords.leadsTo.within.object hnew
    · rw [hrecords.registered_eq]
      exact hfresh
  | assign ho hkind => exact .single (.assign ho hkind)
  | enter hs hopen houter => exact .single (.enter hs hopen houter)
  | exit hcurrent => exact .single (.exit hcurrent)

namespace OrderlyTo

theorem refl (t : Table) : t.OrderlyTo t :=
  Relation.ReflTransGen.refl

theorem single (h : t.Orderly t') : t.OrderlyTo t' :=
  Relation.ReflTransGen.single h

theorem trans {t'' : Table} (h : t.OrderlyTo t') (h' : t'.OrderlyTo t'') : t.OrderlyTo t'' :=
  Relation.ReflTransGen.trans h h'

theorem leadsTo (h : t.OrderlyTo t') : t.LeadsTo t' := by
  induction h with
  | refl => exact .refl t
  | tail _ hlast ih => exact ih.trans hlast.leadsTo

/-- What every orderly step preserves in a table without dangling handles is preserved from end
to end. -/
theorem preserves {P : Table → Prop}
    (hstep : ∀ {t t' : Table}, t.InBounds → t.Orderly t' → P t → P t') (h : t.OrderlyTo t')
    (hbounds : t.InBounds) (hP : P t) : P t' := by
  induction h with
  | refl => exact hP
  | tail hsteps hlast ih => exact hstep (hbounds.leadsTo (leadsTo hsteps)) hlast ih

end OrderlyTo

end Table

end BlockScope
