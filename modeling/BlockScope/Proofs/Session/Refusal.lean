import BlockScope.Release
import BlockScope.Proofs.Session.Reachable

namespace BlockScope

/-- The command is a single operation. To load the reference program takes many. -/
def Command.isSingle : Command → Bool
  | loadReference => false
  | _ => true

def Step.isSingle : Step → Bool
  | command c => c.isSingle
  | query _ => true

namespace Table

/-- What speaks against a command. Where several things do, the first of them counts: each of the
later ones comes with the condition that the earlier ones do not hold. -/
inductive Objection (t : Table) : Command → SemanticError → Prop
  | tooLong {b : Blueprint} {name : String} (hlong : t.maxIdentLength < name.length) :
      Objection t (.create b name) (.identTooLong name t.maxIdentLength)
  | secondProgram {b : Blueprint} {name : String} {existing : ObjectId}
      (hlength : name.length ≤ t.maxIdentLength) (hkind : b.kind = .program)
      (hexisting : t.program = some existing) :
      Objection t (.create b name) (.programAlreadyDefined (t.name existing))
  | otherKind {o : ObjectId} {a : Assignment} (hkind : (t.object o).kind ≠ a.kind) :
      Objection t (.assign o a) (.kindMismatch (t.name o) (.kind a.kind) (t.object o).kind)
  | predeclared {s : ScopeId} (hsealed : (t.scope s).owner ∈ t.globals) :
      Objection t (.enter s) (.sealedScope (t.name (t.scope s).owner))
  | elsewhere {s : ScopeId} (hopen : (t.scope s).owner ∉ t.globals)
      (houter : (t.scope s).outer ≠ t.current) : Objection t (.enter s) .unbalancedBlock
  | outermost (hcurrent : t.current = none) : Objection t .exit (.noCurrentScope .exitBlock)
  | nowhere {o : ObjectId} (hcurrent : t.current = none) :
      Objection t (.declare o) (.noCurrentScope .declareObject)
  | declared {o : ObjectId} {s : ScopeId} (hcurrent : t.current = some s)
      (hregistered : (t.object o).registered) :
      Objection t (.declare o) (.alreadyDeclared (t.name o))

/-- What a session reports from its first step to its last. -/
def logDuring (t : Table) (steps : List Step) : List Event :=
  (t.outcomes steps).flatMap Outcome.log

/-- The session without the single operations that are refused in it. -/
def withoutRefusals (t : Table) : List Step → List Step
  | [] => []
  | s :: steps =>
    let later := (t.step s).table.withoutRefusals steps
    if s.isSingle && !(t.step s).result.isOk then later else s :: later

variable {t : Table} {c : Command} {e : SemanticError}

/-- A command to which there is an objection is refused with it, and nothing else happens. -/
theorem Objection.refused (h : t.Objection c e) : t.perform c = .refused e t := by
  cases h with
  | tooLong hlong => simp [perform, create, hlong]
  | secondProgram hlength hkind hexisting =>
    simp [perform, create, Nat.not_lt_of_le hlength, hkind, hexisting]
  | otherKind hkind => simp [perform, assign, hkind, mismatch]
  | predeclared hsealed => simp [perform, enter, hsealed]
  | elsewhere hopen houter => simp [perform, enter_eq_unbalanced hopen houter]
  | outermost hcurrent => simp [perform, exit_refused hcurrent]
  | nowhere hcurrent => simp [perform, declare, hcurrent]
  | declared hcurrent hregistered => simp [perform, declare, hcurrent, hregistered]

/-- A single operation to which there is no objection is accepted. -/
theorem perform_accepted (hsingle : c.isSingle) (hnone : ∀ e, ¬ t.Objection c e) :
    ∃ reply, (t.perform c).result = .ok reply := by
  cases c with
  | create b name =>
    have hlength : name.length ≤ t.maxIdentLength :=
      Nat.le_of_not_lt fun hlong => hnone _ (.tooLong hlong)
    have hfirst : b.kind = .program → t.program = none := fun hkind =>
      Option.eq_none_iff_forall_ne_some.mpr fun _ hexisting =>
        hnone _ (.secondProgram hlength hkind hexisting)
    rw [perform, create_accepted hlength hfirst, Outcome.map_accepted]
    exact ⟨_, rfl⟩
  | createScope owner outer => exact ⟨.scopeId t.nextScope, rfl⟩
  | assign o a =>
    have hkind : (t.object o).kind = a.kind :=
      Decidable.byContradiction fun hother => hnone _ (.otherKind hother)
    rw [perform, assign_accepted hkind, Outcome.map_accepted]
    exact ⟨_, rfl⟩
  | enter s =>
    have hopen : (t.scope s).owner ∉ t.globals := fun hsealed => hnone _ (.predeclared hsealed)
    have houter : (t.scope s).outer = t.current :=
      Decidable.byContradiction fun hother => hnone _ (.elsewhere hopen hother)
    rw [perform, enter_accepted hopen houter, Outcome.map_accepted]
    exact ⟨_, rfl⟩
  | exit =>
    cases hcurrent : t.current with
    | none => exact absurd (.outermost hcurrent) (hnone _)
    | some s =>
      rw [perform, exit_accepted hcurrent, Outcome.map_accepted]
      exact ⟨_, rfl⟩
  | declare o =>
    cases hcurrent : t.current with
    | none => exact absurd (.nowhere hcurrent) (hnone _)
    | some s =>
      have hfresh : (t.object o).registered = false := by
        rw [← Bool.not_eq_true]
        exact fun hregistered => hnone _ (.declared hcurrent hregistered)
      rw [perform, declare_accepted hcurrent hfresh, Outcome.map_accepted]
      exact ⟨_, rfl⟩
  | loadReference => cases hsingle

/-- The objection is the reason of the refusal, and there is no other. -/
theorem result_eq_error_iff (hsingle : c.isSingle) :
    (t.perform c).result = .error e ↔ t.Objection c e := by
  constructor
  · intro herror
    by_cases hsome : ∃ e', t.Objection c e'
    · obtain ⟨e', hobjection⟩ := hsome
      have hsame := herror
      rw [hobjection.refused] at hsame
      cases hsame
      exact hobjection
    · obtain ⟨reply, haccepted⟩ := perform_accepted hsingle (not_exists.mp hsome)
      rw [haccepted] at herror
      cases herror
  · intro hobjection
    rw [hobjection.refused]
    rfl

/-- A refused single operation leaves the table as it is and reports nothing. -/
theorem perform_eq_refused (hsingle : c.isSingle) (herror : (t.perform c).result = .error e) :
    t.perform c = .refused e t :=
  ((result_eq_error_iff hsingle).mp herror).refused

/-- So does a refused step, whether it is an operation or a question. -/
theorem step_eq_refused {s : Step} (hsingle : s.isSingle) (herror : (t.step s).result = .error e) :
    t.step s = .refused e t := by
  cases s with
  | command c => exact perform_eq_refused hsingle herror
  | query q =>
    have hanswer : t.answer q = .error e := herror
    change Outcome.ofAnswer (t.answer q) t = .refused e t
    rw [hanswer]
    rfl

/-- Refusals leave no trace in a session: without them it ends in the same table and reports the
same. -/
theorem after_withoutRefusals (t : Table) (steps : List Step) :
    t.after (t.withoutRefusals steps) = t.after steps ∧
      t.logDuring (t.withoutRefusals steps) = t.logDuring steps := by
  induction steps generalizing t with
  | nil => exact ⟨rfl, rfl⟩
  | cons s steps ih =>
    obtain ⟨hafter, hlog⟩ := ih (t.step s).table
    unfold withoutRefusals
    by_cases hrefused : s.isSingle && !(t.step s).result.isOk
    · rw [if_pos hrefused]
      obtain ⟨hsingle, herror⟩ := Bool.and_eq_true_iff.mp hrefused
      cases hresult : (t.step s).result with
      | ok reply =>
        rw [hresult] at herror
        cases herror
      | error e =>
        have hstep := step_eq_refused hsingle hresult
        rw [hstep] at hafter hlog ⊢
        have hafter' : t.after (s :: steps) = (t.step s).table.after steps := rfl
        have hlog' : t.logDuring (s :: steps) =
            (t.step s).log ++ (t.step s).table.logDuring steps := rfl
        rw [hafter', hlog', hstep]
        exact ⟨hafter, hlog⟩
    · rw [if_neg hrefused]
      exact ⟨hafter, congrArg ((t.step s).log ++ ·) hlog⟩

/-- **Refused operations are atomic.** A single operation is refused exactly if there is an
objection to it, with the first objection as the reason. A refused operation leaves the table as it
is and reports nothing, so a session without its refusals ends in the same table with the same
report. A refused release reports nothing either. -/
theorem refused_iff_objection (t : Table) {c : Command} (hsingle : c.isSingle) :
    (∀ e, (t.perform c).result = .error e ↔ t.Objection c e) ∧
      (∀ e, (t.perform c).result = .error e →
        (t.perform c).table = t ∧ (t.perform c).log = []) ∧
      (∀ steps, t.after (t.withoutRefusals steps) = t.after steps ∧
        t.logDuring (t.withoutRefusals steps) = t.logDuring steps) ∧
      ∀ e, t.release = .error e → t.releaseLog = [] := by
  refine ⟨fun e => result_eq_error_iff hsingle, fun e herror => ?_, t.after_withoutRefusals,
    fun e herror => ?_⟩
  · rw [perform_eq_refused hsingle herror]
    exact ⟨rfl, rfl⟩
  · unfold releaseLog
    rw [herror]

/-- A session that makes a program and enters its body. -/
def inProgram : List Step :=
  [.command (.create .program "P"), .command (.enter ⟨5⟩)]

/-- A second program with too long a name is refused for its name, and a body that is closed for
good is refused for that, though it is not nested in the current scope either. -/
theorem refused_iff_objection_in_program :
    let t := (initial 3).after inProgram
    (t.perform (.create .program "MAIN")).result = .error (.identTooLong "MAIN" 3) ∧
      (t.perform (.create .program "MAIN")).table = t ∧
      (t.perform (.enter ⟨2⟩)).result = .error (.sealedScope "WRITEI") ∧
      (t.perform (.enter ⟨2⟩)).table = t ∧
      t.current ≠ (t.scope ⟨2⟩).outer ∧ t.program = some ⟨7⟩ := by
  intro t
  obtain ⟨hcreate, hcreate', -⟩ :=
    refused_iff_objection t (c := .create .program "MAIN") rfl
  obtain ⟨henter, henter', -⟩ := refused_iff_objection t (c := .enter ⟨2⟩) rfl
  have hlong := (hcreate _).mpr (Objection.tooLong (by decide))
  have hsealed := (henter _).mpr (Objection.predeclared (by decide))
  exact ⟨hlong, (hcreate' _ hlong).1, hsealed, (henter' _ hsealed).1, by decide, by decide⟩

end Table

end BlockScope
