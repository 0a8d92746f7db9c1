import BlockScope.Proofs.Block.Chain
import BlockScope.Proofs.Declarations.Program

namespace BlockScope

/-- What a step does to a stack of entered scopes, given the result of the step: a scope that is
entered goes on top, and leaving a block takes the top away. Loading the reference program
leaves all blocks that it enters. -/
def Step.onStack (s : Step) (result : Except SemanticError Reply) (stack : List ScopeId) :
    List ScopeId :=
  match s, result with
  | .command (.enter s), .ok _ => s :: stack
  | .command .exit, .ok _ => stack.tail
  | _, _ => stack

namespace Table

/-- The stack that a session leaves behind, which begins with `stack`. -/
def stackAfter (t : Table) (stack : List ScopeId) : List Step → List ScopeId
  | [] => stack
  | s :: steps => (t.step s).table.stackAfter (s.onStack (t.step s).result stack) steps

/-- The table stands where the stack says: its chain is the stack, and nothing on the stack
belongs to a predeclared routine. -/
structure StandsAt (t : Table) (stack : List ScopeId) : Prop where
  chain : t.ChainFrom t.current stack
  isOpen : ∀ s ∈ stack, (t.scope s).owner ∉ t.globals

variable {t t' : Table} {stack : List ScopeId} {s : ScopeId}

private theorem moveTo_current {current : Option ScopeId} (h : t.current = current) :
    { t with current } = t := by
  rw [← h]

namespace StandsAt

theorem head?_eq (h : t.StandsAt stack) : stack.head? = t.current :=
  h.chain.head?_eq

/-- As long as the pointer stays, so does the stack. -/
theorem stays (h : t.StandsAt stack) (hbounds : t.InBounds) (hlater : t.Continues t')
    (hcurrent : t'.current = t.current) : t'.StandsAt stack := by
  have hscopes := h.chain.hasScope hbounds hbounds.current
  refine ⟨?_, fun s hs => ?_⟩
  · rw [hcurrent]
    exact h.chain.continues hlater hscopes
  · rw [hlater.owner (hscopes s hs), hlater.globals]
    exact h.isOpen s hs

theorem push (h : t.StandsAt stack) (hopen : (t.scope s).owner ∉ t.globals)
    (houter : (t.scope s).outer = t.current) :
    { t with current := some s }.StandsAt (s :: stack) := by
  refine ⟨⟨rfl, ChainFrom.moveTo_iff.mpr ?_⟩, fun u hu => ?_⟩
  · exact houter ▸ h.chain
  · obtain rfl | hu := List.mem_cons.mp hu
    · exact hopen
    · exact h.isOpen u hu

theorem pop (h : t.StandsAt stack) (hcurrent : t.current = some s) :
    { t with current := (t.scope s).outer }.StandsAt stack.tail := by
  cases stack with
  | nil => exact absurd (h.head?_eq.trans hcurrent) nofun
  | cons u rest =>
    obtain ⟨htop, hrest⟩ := h.chain
    obtain rfl := Option.some.inj (htop.symm.trans hcurrent)
    exact ⟨ChainFrom.moveTo_iff.mpr hrest, fun v hv => h.isOpen v (List.mem_cons_of_mem _ hv)⟩

/-- Every step takes the table where it takes the stack. -/
theorem step (h : t.StandsAt stack) (hbounds : t.InBounds) {action : Step}
    (hfits : action.Fits t) :
    (t.step action).table.StandsAt (action.onStack (t.step action).result stack) := by
  have hlater := (step_leadsTo hbounds hfits).continues
  cases action with
  | query q => exact h
  | command c =>
    cases c with
    | create b name => exact h.stays hbounds hlater (current_create b name)
    | createScope owner outer => exact h.stays hbounds hlater rfl
    | assign o a => exact h.stays hbounds hlater (current_assign o a)
    | declare o => exact h.stays hbounds hlater (current_declare o)
    | loadReference => exact h.stays hbounds hlater (Program.current_load hbounds (by decide))
    | enter s =>
      obtain ⟨e, hrefused⟩ | ⟨haccepted, hopen, houter⟩ := t.enter_cases s
      · simpa [Table.step, perform, hrefused, Outcome.refused, Outcome.map, Step.onStack,
          Except.map] using h
      · simpa [Table.step, perform, haccepted, Outcome.accepted, Outcome.map, Step.onStack,
          Except.map] using h.push hopen houter
    | exit =>
      cases hcurrent : t.current with
      | none =>
        simpa [Table.step, perform, exit_refused hcurrent, Outcome.refused, Outcome.map,
          Step.onStack, Except.map] using h
      | some s =>
        simpa [Table.step, perform, exit_accepted hcurrent, Outcome.accepted, Outcome.map,
          Step.onStack, Except.map] using h.pop hcurrent

/-- So does a whole session. -/
theorem after (h : t.StandsAt stack) (hbounds : t.InBounds) {steps : List Step}
    (hadmits : t.Admits steps) : (t.after steps).StandsAt (t.stackAfter stack steps) := by
  induction steps generalizing t stack with
  | nil => exact h
  | cons s steps ih =>
    exact ih (h.step hbounds hadmits.1) (hbounds.leadsTo (step_leadsTo hbounds hadmits.1)) hadmits.2

/-- Only an empty stack has nothing to leave. -/
theorem exit_result (h : t.StandsAt stack) :
    (t.exit.result = .ok () ↔ stack ≠ []) ∧
      (t.exit.result = .error (.noCurrentScope .exitBlock) ↔ stack = []) := by
  rw [ne_eq, ← List.head?_eq_none_iff, h.head?_eq]
  cases hcurrent : t.current with
  | none => simp [exit_refused hcurrent, Outcome.refused]
  | some s => simp [exit_accepted hcurrent, Outcome.accepted]

/-- A block that has been left can be entered again, which undoes the leaving: having been on the
stack, it is not sealed. -/
theorem enter_exit (h : t.StandsAt stack) (hcurrent : t.current = some s) :
    (t.exit.table.enter s).result = .ok () ∧ (t.exit.table.enter s).table = t := by
  have hmem : s ∈ stack := List.mem_of_head? (h.head?_eq.trans hcurrent)
  rw [exit_accepted hcurrent]
  have henter := enter_accepted (t := { t with current := (t.scope s).outer }) (s := s)
    (h.isOpen s hmem) rfl
  simp only [Outcome.accepted] at henter ⊢
  rw [henter]
  exact ⟨rfl, moveTo_current hcurrent⟩

end StandsAt

/-- Leaving undoes entering. -/
theorem exit_enter (h : (t.enter s).result = .ok ()) :
    (t.enter s).table.exit.result = .ok () ∧ (t.enter s).table.exit.table = t := by
  obtain ⟨hopen, houter⟩ := enter_eq_ok_iff.mp h
  rw [enter_accepted hopen houter]
  have hexit := exit_accepted (t := { t with current := some s }) (s := s) rfl
  simp only [Outcome.accepted] at hexit ⊢
  rw [hexit]
  exact ⟨rfl, moveTo_current houter.symm⟩

theorem standsAt_initial (limit : Nat) : (initial limit).StandsAt [] :=
  ⟨current_initial limit, nofun⟩

/-- The stack is that of the blocks that are open, the innermost first: the scopes that the pointer
leads to, on which entering and leaving work from the top. -/
structure OpenBlocks (t : Table) (stack : List ScopeId) : Prop where
  linked : t.ChainFrom t.current stack
  chain : t.chain = stack
  nodup : stack.Nodup
  leaves_iff : t.exit.result = .ok () ↔ stack ≠ []
  empty_iff : t.exit.result = .error (.noCurrentScope .exitBlock) ↔ stack = []
  enters_iff : ∀ s, (t.enter s).result = .ok () ↔
    (t.scope s).owner ∉ t.globals ∧ (t.scope s).outer = stack.head?
  leaveEntered : ∀ s, (t.enter s).result = .ok () →
    (t.enter s).table.exit.result = .ok () ∧ (t.enter s).table.exit.table = t
  enterLeft : ∀ s, t.current = some s →
    (t.exit.table.enter s).result = .ok () ∧ (t.exit.table.enter s).table = t

/-- **The pointer stands for a stack.** After any session, the scopes from the current one
outward are those that the session entered and did not leave again. So a block can be left
unless the stack is empty, and a scope can be entered from the top of the stack only; the stack
holds no scope twice; and entering and leaving undo each other, in either order. -/
theorem chain_eq_stackAfter {limit : Nat} {steps : List Step}
    (hadmits : (initial limit).Admits steps) :
    ((initial limit).after steps).OpenBlocks ((initial limit).stackAfter [] steps) := by
  let t := (initial limit).after steps
  let stack := (initial limit).stackAfter [] steps
  have hreachable : t.Reachable := (Reachable.initial limit).after hadmits
  have hstands : t.StandsAt stack :=
    (standsAt_initial limit).after (initial_inBounds limit) hadmits
  obtain ⟨hleave, hempty⟩ := hstands.exit_result
  exact {
    linked := hstands.chain
    chain := chain_eq hstands.chain hreachable.outerOlder hreachable.inBounds
    nodup := hstands.chain.nodup hreachable.outerOlder
    leaves_iff := hleave
    empty_iff := hempty
    enters_iff := fun s => by
      rw [hstands.head?_eq]
      exact enter_eq_ok_iff
    leaveEntered := fun _ => exit_enter
    enterLeft := fun _ => hstands.enter_exit }

/-- A session that enters the body of a procedure of the reference program, makes a scope for it
by hand, enters that one too, leaves it, enters it again, and fails to enter the body of a
function and to load the reference program once more. -/
def handmade : List Step :=
  [.command .loadReference, .command (.enter ⟨5⟩), .command (.enter ⟨7⟩),
   .command (.enter ⟨6⟩), .command (.createScope ⟨7⟩ (some ⟨7⟩)), .command (.enter ⟨8⟩),
   .command .exit, .query (.lookup "v1"), .command (.enter ⟨8⟩), .command .loadReference]

theorem chain_handmade : (initial 15).Admits handmade ∧
    ((initial 15).after handmade).chain = [⟨8⟩, ⟨7⟩, ⟨5⟩] ∧
    (((initial 15).after handmade).exit.table.enter ⟨8⟩).table = (initial 15).after handmade := by
  have hadmits : (initial 15).Admits handmade := by decide
  have hopen := chain_eq_stackAfter hadmits
  have hcurrent : ((initial 15).after handmade).current = some ⟨8⟩ := by decide
  refine ⟨hadmits, hopen.chain.trans ?_, (hopen.enterLeft ⟨8⟩ hcurrent).2⟩
  decide

end Table

end BlockScope
