import Mathlib.Logic.Relation
import BlockScope.Proofs.Table.Operations
import BlockScope.Session

namespace BlockScope

/-- The blueprint refers to nothing but objects of the table. -/
def Blueprint.Fits (t : Table) : Blueprint → Prop
  | parameter _ owner => t.HasObject owner
  | _ => True

/-- Every handle in the command is one of the table's own. -/
def Command.Fits (t : Table) : Command → Prop
  | create b _ => b.Fits t
  | createScope owner outer => t.HasObject owner ∧ ∀ s ∈ outer, t.HasScope s
  | assign o _ => t.HasObject o
  | enter s => t.HasScope s
  | declare o => t.HasObject o
  | exit | loadReference => True

instance (t : Table) (b : Blueprint) : Decidable (b.Fits t) := by
  cases b <;> unfold Blueprint.Fits <;> infer_instance

instance (t : Table) (c : Command) : Decidable (c.Fits t) := by
  cases c <;> unfold Command.Fits <;> infer_instance

namespace Table

/-- Everything that a single accepted operation can do to a table. Refused operations and
questions do nothing. -/
inductive Transition (t : Table) : Table → Prop
  | create {b : Blueprint} (name : String) (hfits : b.Fits t)
      (hlength : name.length ≤ t.maxIdentLength)
      (hfirst : b.kind = .program → t.program = none) : Transition t (t.allocate b name)
  | createScope {owner : ObjectId} {outer : Option ScopeId} (howner : t.HasObject owner)
      (houter : ∀ s ∈ outer, t.HasScope s) : Transition t (t.createScope owner outer).table
  | assign {o : ObjectId} {a : Assignment} (ho : t.HasObject o)
      (hkind : (t.object o).kind = a.kind) : Transition t (t.modifyObject o (·.assign a))
  | enter {s : ScopeId} (hs : t.HasScope s) (hopen : (t.scope s).owner ∉ t.globals)
      (houter : (t.scope s).outer = t.current) : Transition t { t with current := some s }
  | exit {s : ScopeId} (hcurrent : t.current = some s) :
      Transition t { t with current := (t.scope s).outer }
  | declare {s : ScopeId} {o : ObjectId} (hcurrent : t.current = some s) (ho : t.HasObject o)
      (hfresh : (t.object o).registered = false) : Transition t (t.enlist s o)

/-- The second table comes from the first by any number of transitions. -/
def LeadsTo : Table → Table → Prop :=
  Relation.ReflTransGen Transition

namespace LeadsTo

theorem refl (t : Table) : t.LeadsTo t :=
  Relation.ReflTransGen.refl

theorem single {t t' : Table} (h : t.Transition t') : t.LeadsTo t' :=
  Relation.ReflTransGen.single h

theorem trans {t₁ t₂ t₃ : Table} (h₁ : t₁.LeadsTo t₂) (h₂ : t₂.LeadsTo t₃) : t₁.LeadsTo t₃ :=
  Relation.ReflTransGen.trans h₁ h₂

/-- What every transition preserves is preserved from end to end. -/
theorem preserves {P : Table → Prop} (hstep : ∀ {t t'}, Transition t t' → P t → P t')
    {t t' : Table} (h : t.LeadsTo t') (hP : P t) : P t' := by
  induction h with
  | refl => exact hP
  | tail _ hlast ih => exact hstep hlast ih

end LeadsTo

variable {t : Table}

theorem create_leadsTo {b : Blueprint} (name : String) (hfits : b.Fits t) :
    t.LeadsTo (t.create b name).table := by
  obtain ⟨e, hrefused⟩ | ⟨haccepted, hlength, hfirst⟩ := t.create_cases b name
  · rw [hrefused]
    exact .refl t
  · rw [haccepted]
    exact .single (.create name hfits hlength hfirst)

theorem assign_leadsTo {o : ObjectId} (a : Assignment) (ho : t.HasObject o) :
    t.LeadsTo (t.assign o a).table := by
  obtain ⟨e, hrefused⟩ | ⟨haccepted, hkind⟩ := t.assign_cases o a
  · rw [hrefused]
    exact .refl t
  · rw [haccepted]
    exact .single (.assign ho hkind)

theorem enter_leadsTo {s : ScopeId} (hs : t.HasScope s) : t.LeadsTo (t.enter s).table := by
  obtain ⟨e, hrefused⟩ | ⟨haccepted, hopen, houter⟩ := t.enter_cases s
  · rw [hrefused]
    exact .refl t
  · rw [haccepted]
    exact .single (.enter hs hopen houter)

theorem exit_leadsTo : t.LeadsTo t.exit.table := by
  cases hcurrent : t.current with
  | none =>
    rw [exit_refused hcurrent]
    exact .refl t
  | some s =>
    rw [exit_accepted hcurrent]
    exact .single (.exit hcurrent)

theorem declare_leadsTo {o : ObjectId} (ho : t.HasObject o) : t.LeadsTo (t.declare o).table := by
  obtain ⟨e, hrefused⟩ | ⟨s, haccepted, hcurrent, hfresh⟩ := t.declare_cases o
  · rw [hrefused]
    exact .refl t
  · rw [haccepted]
    exact .single (.declare hcurrent ho hfresh)

/-- What a step makes of the table. All that is not refused and does not ask is here, with the
reasons why it was not refused. -/
inductive Effect (t : Table) : Step → Table → Prop
  | none (action : Step) : Effect t action t
  | create {b : Blueprint} {name : String} (hlength : name.length ≤ t.maxIdentLength)
      (hfirst : b.kind = .program → t.program = none) :
      Effect t (.command (.create b name)) (t.allocate b name)
  | createScope {owner : ObjectId} {outer : Option ScopeId} :
      Effect t (.command (.createScope owner outer)) (t.createScope owner outer).table
  | assign {o : ObjectId} {a : Assignment} (hkind : (t.object o).kind = a.kind) :
      Effect t (.command (.assign o a)) (t.modifyObject o (·.assign a))
  | enter {s : ScopeId} (hopen : (t.scope s).owner ∉ t.globals)
      (houter : (t.scope s).outer = t.current) :
      Effect t (.command (.enter s)) { t with current := some s }
  | exit {s : ScopeId} (hcurrent : t.current = some s) :
      Effect t (.command .exit) { t with current := (t.scope s).outer }
  | declare {s : ScopeId} {o : ObjectId} (hcurrent : t.current = some s)
      (hfresh : (t.object o).registered = false) :
      Effect t (.command (.declare o)) (t.enlist s o)
  | loadReference :
      Effect t (.command .loadReference) (Program.reference.load t).table

theorem step_effect (t : Table) (action : Step) : t.Effect action (t.step action).table := by
  cases action with
  | query q => exact .none _
  | command c =>
    cases c with
    | create b name =>
      change t.Effect _ (t.create b name).table
      obtain ⟨e, hrefused⟩ | ⟨haccepted, hlength, hfirst⟩ := t.create_cases b name
      · rw [hrefused]
        exact .none _
      · rw [haccepted]
        exact .create hlength hfirst
    | createScope owner outer => exact .createScope
    | assign o a =>
      change t.Effect _ (t.assign o a).table
      obtain ⟨e, hrefused⟩ | ⟨haccepted, hkind⟩ := t.assign_cases o a
      · rw [hrefused]
        exact .none _
      · rw [haccepted]
        exact .assign hkind
    | enter s =>
      change t.Effect _ (t.enter s).table
      obtain ⟨e, hrefused⟩ | ⟨haccepted, hopen, houter⟩ := t.enter_cases s
      · rw [hrefused]
        exact .none _
      · rw [haccepted]
        exact .enter hopen houter
    | exit =>
      change t.Effect _ t.exit.table
      cases hcurrent : t.current with
      | none =>
        rw [exit_refused hcurrent]
        exact .none _
      | some s =>
        rw [exit_accepted hcurrent]
        exact .exit hcurrent
    | declare o =>
      change t.Effect _ (t.declare o).table
      obtain ⟨e, hrefused⟩ | ⟨s, haccepted, hcurrent, hfresh⟩ := t.declare_cases o
      · rw [hrefused]
        exact .none _
      · rw [haccepted]
        exact .declare hcurrent hfresh
    | loadReference => exact .loadReference

/-- An accepted declaration puts the object into the current scope. -/
theorem step_declare {s : ScopeId} {o : ObjectId} (hcurrent : t.current = some s)
    (hfresh : (t.object o).registered = false) :
    t.step (.command (.declare o)) = .accepted .done (t.enlist s o) (t.declarationLog s o) := by
  change (t.declare o).map (fun _ => Reply.done) = _
  rw [declare_accepted hcurrent hfresh]
  rfl

end Table

end BlockScope
