import BlockScope.Proofs.Session.Orderly
import BlockScope.Proofs.Session.Reachable

namespace BlockScope

namespace Step

/-- The step records a type or value, or it only asks. -/
def isRecord : Step → Bool
  | command (.assign ..) | query _ => true
  | _ => false

/-- The step is one of a parser, whose later steps are given: no scope is made by hand, and what
is created, except for the program, is created in an entered scope and declared before anything
happens but records. -/
def Proper (t : Table) (later : List Step) : Step → Prop
  | command (.createScope ..) => False
  | command (.create b name) => b.kind ≠ .program → ∀ o ∈ (t.create b name).result.toOption,
      t.current ≠ none ∧ later.find? (fun s => !s.isRecord) = some (command (.declare o))
  | _ => True

instance (t : Table) (later : List Step) : (s : Step) → Decidable (s.Proper t later)
  | command (.create b name) => inferInstanceAs (Decidable (b.kind ≠ .program →
      ∀ o ∈ (t.create b name).result.toOption,
        t.current ≠ none ∧ later.find? (fun s => !s.isRecord) = some (command (.declare o))))
  | command (.createScope ..) => isFalse id
  | command (.assign ..) | command (.enter _) | command .exit | command (.declare _)
  | command .loadReference | query _ => isTrue trivial

end Step

namespace Table

/-- Each step of a session is one that a parser takes. -/
def Disciplined (t : Table) : List Step → Prop
  | [] => True
  | s :: steps => s.Proper t steps ∧ (t.step s).table.Disciplined steps

instance decidableDisciplined (t : Table) : (steps : List Step) → Decidable (t.Disciplined steps)
  | [] => isTrue trivial
  | s :: steps =>
    have := decidableDisciplined (t.step s).table steps
    inferInstanceAs (Decidable (_ ∧ _))

/-- Containers have taken all objects of the table. -/
def Settled (t : Table) : Prop :=
  ∀ o, t.HasObject o → (t.object o).registered

/-- What a parser has done since `start`, when it is about to take the `later` steps: it is
between declarations, or it has made an object that it is going to declare next. -/
inductive Progress (start t : Table) (later : List Step) : Prop
  | between (h : start.OrderlyTo t)
  | pending {base : Table} {s : ScopeId} {b : Blueprint} {name : String}
      (h : start.OrderlyTo base) (hcurrent : base.current = some s) (hkind : b.kind ≠ .program)
      (hfits : b.Fits base) (hlength : name.length ≤ base.maxIdentLength)
      (hrecords : (base.allocate b name).Records t)
      (hnext : later.find? (fun s => !s.isRecord) =
        some (.command (.declare base.nextObject)))

variable {start t t' : Table}

theorem settled_initial (limit : Nat) : (initial limit).Settled := by
  rintro ⟨i⟩ hi
  have hlt : i < 7 := (hasObject_initial limit).mp hi
  interval_cases i <;> simp [object, objects_initial]

theorem Orderly.settled (hstep : t.Orderly t') (h : t.Settled) : t'.Settled := by
  cases hstep with
  | program hlength hfirst =>
    intro o ho
    obtain hold | rfl := hasObject_allocate.mp ho
    · rw [hold.object_allocate]
      exact h o hold
    · rw [object_allocate, if_pos rfl]
      rfl
  | @introduce s b name made hcurrent hkind hfits hlength hrecords =>
    have hmade : ∀ o, made.HasObject o → (made.object o).registered ∨ o = t.nextObject := by
      refine hrecords.preserves (P := fun made =>
        ∀ o, made.HasObject o → (made.object o).registered ∨ o = t.nextObject)
        (fun _ _ hbefore o ho => ?_) fun o ho => ?_
      · rw [registered_assign]
        exact hbefore o (hasObject_modifyObject.mp ho)
      · obtain hold | rfl := hasObject_allocate.mp ho
        · rw [hold.object_allocate]
          exact .inl (h o hold)
        · exact .inr rfl
    intro o ho
    have ho : made.HasObject o := hasObject_enlist.mp ho
    rw [registered_enlist]
    obtain hregistered | rfl := hmade o ho
    · simp [hregistered]
    · simp [ho]
  | assign ho hkind =>
    intro p hp
    rw [registered_assign]
    exact h p (hasObject_modifyObject.mp hp)
  | enter hs hopen houter => exact h
  | exit hcurrent => exact h

/-- What a parser does while nothing is pending is orderly, or it makes an object that it is
going to declare. -/
private theorem Progress.step_between (hbounds : t.InBounds) (hsettled : t.Settled) {action : Step}
    {later : List Step} (hfits : action.Fits t) (hproper : action.Proper t later)
    (h : start.OrderlyTo t) : start.Progress (t.step action).table later := by
  have heffect := t.step_effect action
  generalize (t.step action).table = after at heffect ⊢
  cases heffect with
  | none => exact .between h
  | @create b name hlength hfirst =>
    by_cases hkind : b.kind = .program
    · obtain rfl : b = .program := by
        cases b <;> cases hkind
        rfl
      exact .between (h.trans (.single (.program hlength (hfirst rfl))))
    · have hok : t.nextObject ∈ (t.create b name).result.toOption := by
        rw [create_accepted hlength hfirst]
        rfl
      obtain ⟨hinside, hnext⟩ := hproper hkind _ hok
      obtain ⟨s, hcurrent⟩ := Option.ne_none_iff_exists'.mp hinside
      exact .pending h hcurrent hkind hfits hlength .refl hnext
  | createScope => exact hproper.elim
  | assign hkind => exact .between (h.trans (.single (.assign hfits hkind)))
  | enter hopen houter => exact .between (h.trans (.single (.enter hfits hopen houter)))
  | exit hcurrent => exact .between (h.trans (.single (.exit hcurrent)))
  | @declare s o hcurrent hfresh =>
    rw [hsettled o hfits] at hfresh
    cases hfresh
  | loadReference => exact .between (h.trans (Program.reference.load_orderlyTo hbounds))

/-- While an object is pending, a parser makes records, and then declares it. -/
private theorem Progress.step_pending {base : Table} {s : ScopeId} {b : Blueprint} {name : String}
    {action : Step} {later : List Step} (hfits' : action.Fits t) (h : start.OrderlyTo base)
    (hcurrent : base.current = some s) (hkind : b.kind ≠ .program) (hfits : b.Fits base)
    (hlength : name.length ≤ base.maxIdentLength) (hrecords : (base.allocate b name).Records t)
    (hnext : (action :: later).find? (fun s => !s.isRecord) =
      some (.command (.declare base.nextObject))) :
    start.Progress (t.step action).table later := by
  by_cases hrecord : action.isRecord
  · have hlater : later.find? (fun s => !s.isRecord) =
        some (.command (.declare base.nextObject)) := by simpa [hrecord] using hnext
    have heffect := t.step_effect action
    generalize (t.step action).table = after at heffect ⊢
    cases heffect with
    | none => exact .pending h hcurrent hkind hfits hlength hrecords hlater
    | @assign o a hsame =>
      have hmore := hrecords.tail ⟨o, a, hfits', hsame, rfl⟩
      exact .pending h hcurrent hkind hfits hlength hmore hlater
    | _ => cases hrecord
  · obtain rfl : action = .command (.declare base.nextObject) := by
      simpa [hrecord] using hnext
    have hfresh : (t.object base.nextObject).registered = false := by
      rw [hrecords.registered_eq, object_allocate, if_pos rfl]
      simp [hkind]
    rw [step_declare (hrecords.current_eq.trans hcurrent) hfresh]
    exact .between (h.trans (.single (.introduce hcurrent hkind hfits hlength hrecords)))

theorem Progress.step (hbounds : start.InBounds) (hsettled : start.Settled) {action : Step}
    {later : List Step} (hfits : action.Fits t) (hproper : action.Proper t later)
    (h : start.Progress t (action :: later)) : start.Progress (t.step action).table later := by
  cases h with
  | between h =>
    exact step_between (hbounds.leadsTo h.leadsTo)
      (h.preserves (fun _ hstep => hstep.settled) hbounds hsettled) hfits hproper h
  | pending h hcurrent hkind hfits' hlength hrecords hnext =>
    exact step_pending hfits h hcurrent hkind hfits' hlength hrecords hnext

theorem Progress.after (hbounds : start.InBounds) (hsettled : start.Settled) {steps : List Step}
    (hadmits : t.Admits steps) (hdisciplined : t.Disciplined steps)
    (h : start.Progress t steps) : start.OrderlyTo (t.after steps) := by
  induction steps generalizing t with
  | nil =>
    cases h with
    | between h => exact h
    | pending h hcurrent hkind hfits hlength hrecords hnext => cases hnext
  | cons action later ih =>
    exact ih hadmits.2 hdisciplined.2 (h.step hbounds hsettled hadmits.1 hdisciplined.1)

/-- A whole session of a parser is orderly. -/
theorem Disciplined.orderlyTo {steps : List Step} (hbounds : t.InBounds) (hsettled : t.Settled)
    (hadmits : t.Admits steps) (h : t.Disciplined steps) : t.OrderlyTo (t.after steps) :=
  Progress.after hbounds hsettled hadmits h (.between (.refl t))

end Table

end BlockScope
