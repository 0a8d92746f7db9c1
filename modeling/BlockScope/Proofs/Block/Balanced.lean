import Mathlib.Data.List.Find
import BlockScope.Proofs.Block.Stack
import BlockScope.Proofs.Session.Orderly

namespace BlockScope

namespace Step

def isEnter : Step → Bool
  | command (.enter _) => true
  | _ => false

def isExit : Step → Bool
  | command .exit => true
  | _ => false

def isDeclare : Step → Bool
  | command (.declare _) => true
  | _ => false

end Step

namespace Table

/-- How many steps of a session are of a kind and accepted. -/
def timesAccepted (t : Table) (kind : Step → Bool) : List Step → Nat
  | [] => 0
  | s :: steps => (if kind s && (t.step s).result.isOk then 1 else 0) +
      (t.step s).table.timesAccepted kind steps

/-- How many blocks a session enters. -/
def timesEntered (t : Table) (steps : List Step) : Nat :=
  t.timesAccepted Step.isEnter steps

/-- How many blocks a session leaves. -/
def timesLeft (t : Table) (steps : List Step) : Nat :=
  t.timesAccepted Step.isExit steps

/-- The session leaves exactly the blocks that it enters, and declares inside of them only.
Loading the reference program leaves what it enters and declares in between, so that it counts
neither way. -/
structure Balanced (t : Table) (steps : List Step) : Prop where
  nested : ∀ i ≤ steps.length, t.timesLeft (steps.take i) ≤ t.timesEntered (steps.take i)
  closed : t.timesLeft steps = t.timesEntered steps
  inside : ∀ i (hi : i < steps.length), steps[i].isDeclare →
    ((t.after (steps.take i)).step steps[i]).result.isOk →
      t.timesLeft (steps.take i) < t.timesEntered (steps.take i)

theorem balanced_iff {t : Table} {steps : List Step} : t.Balanced steps ↔
    (∀ i ≤ steps.length, t.timesLeft (steps.take i) ≤ t.timesEntered (steps.take i)) ∧
      t.timesLeft steps = t.timesEntered steps ∧
      ∀ i (hi : i < steps.length), steps[i].isDeclare →
        ((t.after (steps.take i)).step steps[i]).result.isOk →
          t.timesLeft (steps.take i) < t.timesEntered (steps.take i) :=
  ⟨fun h => ⟨h.nested, h.closed, h.inside⟩, fun h => ⟨h.1, h.2.1, h.2.2⟩⟩

instance (t : Table) (steps : List Step) : Decidable (t.Balanced steps) :=
  decidable_of_iff' _ balanced_iff

variable {t t' : Table} {steps : List Step} {stack : List ScopeId}

private theorem timesAccepted_append (t : Table) (kind : Step → Bool) (steps steps' : List Step) :
    t.timesAccepted kind (steps ++ steps') =
      t.timesAccepted kind steps + (t.after steps).timesAccepted kind steps' := by
  induction steps generalizing t with
  | nil => exact (Nat.zero_add _).symm
  | cons s steps ih =>
    simp only [List.cons_append, timesAccepted, ih, Nat.add_assoc]
    rfl

private theorem timesAccepted_take_succ (t : Table) (kind : Step → Bool) {i : Nat}
    (hi : i < steps.length) : t.timesAccepted kind (steps.take (i + 1)) =
      t.timesAccepted kind (steps.take i) +
        if kind steps[i] && ((t.after (steps.take i)).step steps[i]).result.isOk then 1 else 0 := by
  rw [List.take_succ_eq_append_getElem hi, timesAccepted_append]
  rfl

end Table

/-- What a step does to a stack it does to the top of it, unless it leaves the bottom. -/
private theorem Step.onStack_append (s : Step) {inner : List ScopeId} (stack : List ScopeId)
    (result : Except SemanticError Reply) (hexit : s.isExit && result.isOk → inner ≠ []) :
    ∃ inner', s.onStack result (inner ++ stack) = inner' ++ stack ∧
      inner'.length + (if s.isExit && result.isOk then 1 else 0) =
        inner.length + (if s.isEnter && result.isOk then 1 else 0) := by
  cases s with
  | query q => exact ⟨inner, rfl, rfl⟩
  | command c =>
    cases c with
    | enter s =>
      cases result with
      | error e => exact ⟨inner, rfl, rfl⟩
      | ok reply => exact ⟨s :: inner, rfl, rfl⟩
    | exit =>
      cases result with
      | error e => exact ⟨inner, rfl, rfl⟩
      | ok reply =>
        obtain ⟨top, below, rfl⟩ := List.exists_cons_of_ne_nil (hexit rfl)
        exact ⟨below, rfl, rfl⟩
    | _ => exact ⟨inner, rfl, rfl⟩

private theorem not_isEnter_of_isExit {s : Step} {ok : Bool} (h : s.isExit && ok) :
    ¬ (s.isEnter && ok) := by
  cases s with
  | query q => cases h
  | command c => cases c <;> simp_all [Step.isEnter, Step.isExit]

namespace Table

variable {t t' : Table} {steps : List Step} {stack inner : List ScopeId}

/-- A scope changes only when something is declared in it. -/
private theorem scope_step (h : t.InBounds) {action : Step} {u : ScopeId} (hu : t.HasScope u)
    (houtside : action.isDeclare → (t.step action).result.isOk → t.current ≠ some u) :
    (t.step action).table.scope u = t.scope u := by
  have heffect := t.step_effect action
  generalize (t.step action).table = after at heffect ⊢
  cases heffect with
  | none => rfl
  | @create b name hlength hfirst =>
    exact hu.scope_allocate b name
  | @createScope owner outer =>
    exact (scope_createScope owner outer u).trans (if_neg hu.ne_nextScope)
  | assign hkind => rfl
  | enter hopen houter => rfl
  | exit hcurrent => rfl
  | @declare s o hcurrent hfresh =>
    rw [step_declare hcurrent hfresh] at houtside
    have hne : u ≠ s := fun heq => houtside rfl rfl (heq ▸ hcurrent)
    exact (scope_enlist s u o).trans (if_neg fun hsame => hne hsame.1)
  | loadReference => exact Program.reference.scope_load h hu

/-- The second table stands where the first does or further inside, and the scopes where the
first stands are still the same. -/
structure Above (t : Table) (stack : List ScopeId) (t' : Table) (inner : List ScopeId) : Prop where
  standsAt : t'.StandsAt (inner ++ stack)
  scopes : ∀ u ∈ stack, t'.scope u = t.scope u

/-- A step that neither leaves the scopes below nor declares in them stays above them. -/
theorem Above.step (h : t.Above stack t' inner) (hreachable : t'.Reachable) {action : Step}
    (hfits : action.Fits t')
    (hexit : action.isExit && (t'.step action).result.isOk → inner ≠ [])
    (hdeclare : action.isDeclare → (t'.step action).result.isOk → inner ≠ []) :
    ∃ inner', t.Above stack (t'.step action).table inner' ∧
      inner'.length + (if action.isExit && (t'.step action).result.isOk then 1 else 0) =
        inner.length + (if action.isEnter && (t'.step action).result.isOk then 1 else 0) := by
  have hbounds := hreachable.inBounds
  obtain ⟨inner', hstack, hlength⟩ := action.onStack_append stack _ hexit
  have hstands := h.standsAt.step hbounds hfits
  rw [hstack] at hstands
  refine ⟨inner', ⟨hstands, fun u hu => ?_⟩, hlength⟩
  have hscopes := h.standsAt.chain.hasScope hbounds hbounds.current
  rw [← h.scopes u hu]
  have hscope := hscopes u (List.mem_append_right inner hu)
  refine scope_step hbounds hscope fun hkind hok hcurrent => ?_
  obtain ⟨top, rest, rfl⟩ := List.exists_cons_of_ne_nil (hdeclare hkind hok)
  have htop : top = u := Option.some.inj (h.standsAt.head?_eq.trans hcurrent)
  have hnodup := h.standsAt.chain.nodup hreachable.outerOlder
  rw [List.cons_append, List.nodup_cons] at hnodup
  exact hnodup.1 (htop ▸ List.mem_append_right rest hu)

/-- At every point of a balanced session, as many scopes lie above those at the start as blocks
have been entered and not left again. -/
theorem Balanced.above (h : t.Balanced steps) (hreachable : t.Reachable)
    (hstands : t.StandsAt stack) (hadmits : t.Admits steps) {i : Nat} (hi : i ≤ steps.length) :
    ∃ inner, t.Above stack (t.after (steps.take i)) inner ∧
      inner.length + t.timesLeft (steps.take i) = t.timesEntered (steps.take i) := by
  induction i with
  | zero => exact ⟨[], ⟨hstands, fun _ _ => rfl⟩, rfl⟩
  | succ i ih =>
    have hlt : i < steps.length := hi
    obtain ⟨inner, habove, hcount⟩ := ih (Nat.le_of_lt hlt)
    have hleave : steps[i].isExit && ((t.after (steps.take i)).step steps[i]).result.isOk →
        inner ≠ [] := by
      intro hexit
      have hnested := h.nested (i + 1) hi
      simp only [timesLeft, timesEntered] at hcount hnested
      rw [timesAccepted_take_succ t _ hlt, timesAccepted_take_succ t _ hlt, if_pos hexit,
        if_neg (not_isEnter_of_isExit hexit)] at hnested
      apply List.ne_nil_of_length_pos
      omega
    have hdeclare : steps[i].isDeclare → ((t.after (steps.take i)).step steps[i]).result.isOk →
        inner ≠ [] := by
      intro hkind hok
      have hinside := h.inside i hlt hkind hok
      apply List.ne_nil_of_length_pos
      omega
    obtain ⟨inner', habove', hcount'⟩ := habove.step (hreachable.after (hadmits.take i))
      (hadmits.getElem hlt) hleave hdeclare
    rw [← after_take_succ t hlt] at habove'
    refine ⟨inner', habove', ?_⟩
    simp only [timesLeft, timesEntered] at hcount ⊢
    rw [timesAccepted_take_succ t _ hlt, timesAccepted_take_succ t _ hlt]
    omega

theorem Reachable.standsAt (h : t.Reachable) : ∃ stack, t.StandsAt stack := by
  induction h with
  | initial limit => exact ⟨[], standsAt_initial limit⟩
  | step s hbefore hfits ih =>
    obtain ⟨stack, hstands⟩ := ih
    exact ⟨_, hstands.step hbefore.inBounds hfits⟩

/-- What a name means among given objects depends on nothing but their names, which stay. -/
private theorem LeadsTo.find?_eq (h : t.LeadsTo t') {list : List ObjectId}
    (hlist : ∀ o ∈ list, t.HasObject o) (name : String) :
    t'.find? list name = t.find? list name := by
  unfold find?
  refine List.find?_congr fun o ho => ?_
  rw [h.name_eq (hlist o ho)]

theorem LeadsTo.findIn?_eq (h : t.LeadsTo t') (hbounds : t.InBounds) {s : ScopeId}
    (hs : t.HasScope s) (hscope : t'.scope s = t.scope s) (name : String) :
    t'.findIn? s name = t.findIn? s name := by
  unfold findIn?
  rw [hscope]
  exact h.find?_eq (hbounds.scope s hs).objects name

/-- **Inner blocks do not leak.** A session that leaves exactly the blocks it enters, and declares
only inside of them, comes back to the scope in which it began. There, the lists of this scope and
of those around it are as before, and so is the meaning of every name. -/
theorem Reachable.lookup?_after_balanced (h : t.Reachable) (hadmits : t.Admits steps)
    (hbalanced : t.Balanced steps) :
    (t.after steps).current = t.current ∧
      (t.after steps).chain = t.chain ∧
      (∀ s ∈ t.chain, ((t.after steps).scope s).objects = (t.scope s).objects) ∧
      ∀ name, (t.after steps).lookup? name = t.lookup? name ∧
        (t.after steps).checkFresh name = t.checkFresh name ∧
        (t.after steps).checkDeclared name = t.checkDeclared name := by
  have hbounds := h.inBounds
  have hafter := h.after hadmits
  have hleads := after_leadsTo hbounds hadmits
  obtain ⟨stack, hstands⟩ := h.standsAt
  obtain ⟨inner, habove, hcount⟩ := hbalanced.above h hstands hadmits (Nat.le_refl _)
  rw [List.take_length, hbalanced.closed] at hcount
  obtain rfl : inner = [] := List.eq_nil_of_length_eq_zero (by omega)
  rw [List.take_length] at habove
  have hback : (t.after steps).StandsAt stack := habove.standsAt
  have hchain : t.chain = stack := chain_eq hstands.chain h.outerOlder hbounds
  have hchain' : (t.after steps).chain = stack :=
    chain_eq hback.chain hafter.outerOlder hafter.inBounds
  have hcurrent : (t.after steps).current = t.current :=
    hback.head?_eq.symm.trans hstands.head?_eq
  have hscopes := hstands.chain.hasScope hbounds hbounds.current
  have hfind (s : ScopeId) (hs : s ∈ stack) (name : String) :
      (t.after steps).findIn? s name = t.findIn? s name :=
    hleads.findIn?_eq hbounds (hscopes s hs) (habove.scopes s hs) name
  have hlookup (name : String) : (t.after steps).lookup? name = t.lookup? name := by
    unfold lookup?
    rw [hchain, hchain', hleads.continues.globals, hleads.find?_eq hbounds.globals name,
      ← List.head?_filterMap, ← List.head?_filterMap,
      List.filterMap_congr fun s hs => hfind s hs name]
  refine ⟨hcurrent, hchain'.trans hchain.symm, fun s hs => ?_, fun name => ⟨hlookup name, ?_, ?_⟩⟩
  · rw [hchain] at hs
    rw [habove.scopes s hs]
  · unfold checkFresh
    rw [hcurrent]
    cases hsome : t.current with
    | none => rfl
    | some s =>
      have hs : s ∈ stack := List.mem_of_head? (hstands.head?_eq.trans hsome)
      simp only [hfind s hs name]
  · unfold checkDeclared resolve
    rw [hlookup name]

/-- A program with one variable, inside of its body. -/
def opened : List Step :=
  [.command (.create .program "P"), .command (.enter ⟨5⟩), .command (.create .var "v"),
   .command (.declare ⟨8⟩)]

/-- A session in the body of a new procedure, where another variable of the same name is declared,
and in a scope made by hand within, where the procedure itself is. Entering a predeclared body,
declaring the first variable again and loading the reference program are refused. -/
def excursion : List Step :=
  [.command (.create .procedure "p"), .command (.enter ⟨6⟩), .command (.create .var "v"),
   .command (.declare ⟨10⟩), .command (.createScope ⟨9⟩ (some ⟨6⟩)), .command (.enter ⟨7⟩),
   .command (.declare ⟨9⟩), .command .loadReference, .command .exit, .command .exit,
   .command (.enter ⟨0⟩), .command (.declare ⟨8⟩), .command (.enter ⟨6⟩), .command .exit]

theorem lookup?_after_excursion : ((initial 15).after opened).Reachable ∧
    ((initial 15).after opened).Admits excursion ∧
    ((initial 15).after opened).Balanced excursion ∧
    (((initial 15).after opened).after excursion).current = some ⟨5⟩ ∧
    (((initial 15).after opened).after excursion).lookup? "v" = some ⟨8⟩ := by
  have hreachable : ((initial 15).after opened).Reachable :=
    (Reachable.initial 15).after (by decide)
  have hadmits : ((initial 15).after opened).Admits excursion := by decide
  have hbalanced : ((initial 15).after opened).Balanced excursion := by decide +kernel
  obtain ⟨hcurrent, _, _, hnames⟩ := hreachable.lookup?_after_balanced hadmits hbalanced
  refine ⟨hreachable, hadmits, hbalanced, hcurrent.trans ?_, (hnames "v").1.trans ?_⟩
  · decide
  · decide

end Table

end BlockScope
