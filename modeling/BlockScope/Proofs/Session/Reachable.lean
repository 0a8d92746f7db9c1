import BlockScope.Proofs.Declarations.Program
import BlockScope.Proofs.Table.Initial

namespace BlockScope

/-- Every handle that the step hands over for a change is one of the table's own. -/
def Step.Fits (t : Table) : Step → Prop
  | command c => c.Fits t
  | query _ => True

instance (t : Table) (s : Step) : Decidable (s.Fits t) := by
  cases s <;> unfold Step.Fits <;> infer_instance

namespace Table

/-- Each step of a session fits the table on which it is taken. -/
def Admits (t : Table) : List Step → Prop
  | [] => True
  | s :: steps => s.Fits t ∧ (t.step s).table.Admits steps

instance decidableAdmits (t : Table) : (steps : List Step) → Decidable (t.Admits steps)
  | [] => isTrue trivial
  | s :: steps =>
    have := decidableAdmits (t.step s).table steps
    inferInstanceAs (Decidable (_ ∧ _))

/-- The tables that a session can arrive at, whatever the limit on identifiers and whether
its steps are accepted or refused. -/
inductive Reachable : Table → Prop
  | initial (limit : Nat) : Reachable (Table.initial limit)
  | step {t : Table} (s : Step) (h : Reachable t) (hfits : s.Fits t) :
      Reachable (t.step s).table

/-- A command on the table's own handles does nothing but transitions. -/
theorem perform_leadsTo {t : Table} {c : Command} (h : t.InBounds) (hfits : c.Fits t) :
    t.LeadsTo (t.perform c).table := by
  cases c with
  | create b name => exact create_leadsTo name hfits
  | createScope owner outer => exact .single (.createScope hfits.1 hfits.2)
  | assign o a => exact assign_leadsTo a hfits
  | enter s => exact enter_leadsTo hfits
  | exit => exact exit_leadsTo
  | declare o => exact declare_leadsTo hfits
  | loadReference => exact Program.reference.load_leadsTo h

theorem step_leadsTo {t : Table} {s : Step} (h : t.InBounds) (hfits : s.Fits t) :
    t.LeadsTo (t.step s).table := by
  cases s with
  | command c => exact perform_leadsTo h hfits
  | query q => exact .refl t

/-- A session made of two admits each step if the first part does and, from where that
ends, the second. -/
theorem admits_append {t : Table} {steps steps' : List Step} :
    t.Admits (steps ++ steps') ↔ t.Admits steps ∧ (t.after steps).Admits steps' := by
  induction steps generalizing t with
  | nil => exact ⟨fun h => ⟨trivial, h⟩, fun h => h.2⟩
  | cons s steps ih =>
    simp only [List.cons_append, Admits, ih, and_assoc]
    exact Iff.rfl

theorem admits_nil (t : Table) : t.Admits [] :=
  trivial

theorem admits_singleton {t : Table} {s : Step} : t.Admits [s] ↔ s.Fits t := by
  simp [Admits]

theorem after_append (t : Table) (steps steps' : List Step) :
    t.after (steps ++ steps') = (t.after steps).after steps' :=
  List.foldl_append

theorem after_nil (t : Table) : t.after [] = t :=
  rfl

theorem after_singleton (t : Table) (s : Step) : t.after [s] = (t.step s).table :=
  rfl

/-- What a session leaves comes from single operations. -/
theorem after_leadsTo {t : Table} {steps : List Step} (h : t.InBounds) (hadmits : t.Admits steps) :
    t.LeadsTo (t.after steps) := by
  induction steps generalizing t with
  | nil => exact .refl t
  | cons s steps ih =>
    have hfirst := step_leadsTo h hadmits.1
    exact hfirst.trans (ih (h.leadsTo hfirst) hadmits.2)

/-- Each step of a session fits the table that the steps before it leave. -/
theorem Admits.take {t : Table} {steps : List Step} (hadmits : t.Admits steps) (i : Nat) :
    t.Admits (steps.take i) := by
  rw [← List.take_append_drop i steps] at hadmits
  exact (admits_append.mp hadmits).1

theorem Admits.getElem {t : Table} {steps : List Step} (hadmits : t.Admits steps) {i : Nat}
    (hi : i < steps.length) : steps[i].Fits (t.after (steps.take i)) := by
  have hnext := hadmits.take (i + 1)
  rw [List.take_succ_eq_append_getElem hi, admits_append, admits_singleton] at hnext
  exact hnext.2

theorem after_take_succ (t : Table) {steps : List Step} {i : Nat} (hi : i < steps.length) :
    t.after (steps.take (i + 1)) = ((t.after (steps.take i)).step steps[i]).table := by
  rw [List.take_succ_eq_append_getElem hi, after_append, after_singleton]

namespace Reachable

theorem inBounds {t : Table} (h : t.Reachable) : t.InBounds := by
  induction h with
  | initial limit => exact initial_inBounds limit
  | step s _ hfits ih => exact ih.leadsTo (step_leadsTo ih hfits)

/-- An invariant holds at the start and survives every transition of a table without
dangling handles. -/
theorem invariant {P : Table → Prop} (hinitial : ∀ limit, P (Table.initial limit))
    (hstep : ∀ {t t' : Table}, t.InBounds → t.Transition t' → P t → P t')
    {t : Table} (h : t.Reachable) : P t := by
  induction h with
  | initial limit => exact hinitial limit
  | step s hbefore hfits ih =>
    have hsteps := step_leadsTo hbefore.inBounds hfits
    have hboth := hsteps.preserves
      (P := fun t => t.InBounds ∧ P t)
      (fun htransition h => ⟨h.1.transition htransition, hstep h.1 htransition h.2⟩)
      ⟨hbefore.inBounds, ih⟩
    exact hboth.2

theorem after {t : Table} (h : t.Reachable) {steps : List Step} (hadmits : t.Admits steps) :
    (t.after steps).Reachable := by
  induction steps generalizing t with
  | nil => exact h
  | cons s steps ih => exact ih (h.step s hadmits.1) hadmits.2

/-- If a step keeps a property exactly if it is harmless, then a session does exactly if all its
steps are, each on the table that it is taken on. -/
theorem after_iff {P : Table → Prop} (Harmless : Table → Step → Prop)
    (hstep : ∀ {t : Table} {s : Step}, t.Reachable → s.Fits t →
      (P (t.step s).table ↔ P t ∧ Harmless t s))
    {t : Table} (h : t.Reachable) {steps : List Step} (hadmits : t.Admits steps) :
    P (t.after steps) ↔
      P t ∧ ∀ i (hi : i < steps.length), Harmless (t.after (steps.take i)) steps[i] := by
  induction steps generalizing t with
  | nil => exact ⟨fun hP => ⟨hP, fun i hi => absurd hi (Nat.not_lt_zero i)⟩, fun hP => hP.1⟩
  | cons s steps ih =>
    have hrest : P (t.after (s :: steps)) ↔ P (t.step s).table ∧ ∀ i (hi : i < steps.length),
        Harmless ((t.step s).table.after (steps.take i)) steps[i] :=
      ih (h.step s hadmits.1) hadmits.2
    rw [hrest, hstep h hadmits.1, and_assoc]
    refine and_congr_right fun _ => ⟨?_, fun hall => ⟨?_, fun i hi => ?_⟩⟩
    · rintro ⟨hfirst, hlater⟩ i hi
      cases i with
      | zero => exact hfirst
      | succ i => exact hlater i (Nat.lt_of_succ_lt_succ hi)
    · exact hall 0 (Nat.zero_lt_succ _)
    · exact hall (i + 1) (Nat.succ_lt_succ hi)

end Reachable

/-- The reachable tables are those that are left by the sessions that keep to the handles
they were given. -/
theorem reachable_iff {t : Table} : t.Reachable ↔
    ∃ limit steps, (Table.initial limit).Admits steps ∧ (Table.initial limit).after steps = t := by
  constructor
  · intro h
    induction h with
    | initial limit => exact ⟨limit, [], admits_nil _, after_nil _⟩
    | step s _ hfits ih =>
      obtain ⟨limit, steps, hadmits, hafter⟩ := ih
      refine ⟨limit, steps ++ [s], ?_, ?_⟩
      · rw [admits_append, hafter, admits_singleton]
        exact ⟨hadmits, hfits⟩
      · rw [after_append, hafter, after_singleton]
  · rintro ⟨limit, steps, hadmits, rfl⟩
    exact (Reachable.initial limit).after hadmits

end Table

end BlockScope
