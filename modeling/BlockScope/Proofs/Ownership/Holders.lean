import Mathlib.Algebra.Order.BigOperators.Group.List
import BlockScope.Proofs.Session.Reachable

namespace BlockScope.Table

/-- How often the lists of the scopes hold `o`. -/
def timesDeclared (t : Table) (o : ObjectId) : Nat :=
  (t.scopes.toList.map fun s => s.objects.count o).sum

/-- How often a container holds `o`: the lists of the scopes, the list of predeclared
routines, and the table itself, which holds its program. -/
def timesHeld (t : Table) (o : ObjectId) : Nat :=
  t.timesDeclared o + t.globals.count o + if t.program = some o then 1 else 0

variable {t t' : Table}

private theorem sum_map_modify {α : Type} {l : List α} {i : Nat} (hi : i < l.length) (f : α → α)
    (g : α → Nat) : ((l.modify i f).map g).sum + g l[i] = (l.map g).sum + g (f l[i]) := by
  induction l generalizing i with
  | nil => simp at hi
  | cons a l ih =>
    cases i with
    | zero =>
      simp only [List.modify_zero_cons, List.map_cons, List.sum_cons, List.getElem_cons_zero]
      omega
    | succ i =>
      have htail := ih (i := i) (by simpa using hi)
      simp only [List.modify_succ_cons, List.map_cons, List.sum_cons, List.getElem_cons_succ]
      omega

/-- An object that a scope lists is held by the scopes as often as that list has it, or more. -/
theorem count_le_timesDeclared (t : Table) (s : ScopeId) (o : ObjectId) :
    (t.scope s).objects.count o ≤ t.timesDeclared o := by
  by_cases hs : t.HasScope s
  · have hlt : s.index < t.scopes.size := hs
    have hmem : t.scope s ∈ t.scopes.toList := by simp [scope, hlt]
    exact List.le_sum_of_mem (List.mem_map.mpr ⟨_, hmem, rfl⟩)
  · rw [scope_of_not_hasScope hs]
    exact Nat.zero_le _

/-- Two scopes never account for more declarations of an object than there are: with the list of
one emptied, the other still has its own. -/
theorem count_add_count_le_timesDeclared {s u : ScopeId} (hne : s ≠ u) (o : ObjectId) :
    (t.scope s).objects.count o + (t.scope u).objects.count o ≤ t.timesDeclared o := by
  by_cases hs : t.HasScope s
  · have hlt : s.index < t.scopes.toList.length := hs
    have hsum := sum_map_modify hlt (fun _ => default) (fun s => s.objects.count o)
    have hfirst : (t.scope s).objects = (t.scopes.toList[s.index]).objects := by
      simp [scope, show s.index < t.scopes.size from hs]
    have hle := (t.modifyScope s fun _ => default).count_le_timesDeclared u o
    have hempty : (default : Scope).objects.count o = 0 := rfl
    rw [scope_modifyScope, if_neg fun h => hne h.1.symm] at hle
    simp only [timesDeclared, modifyScope, Array.toList_modify] at hle hsum ⊢
    rw [hfirst]
    omega
  · rw [scope_of_not_hasScope hs]
    exact (Nat.zero_add _).trans_le (t.count_le_timesDeclared u o)

theorem timesDeclared_eq_zero_iff {o : ObjectId} :
    t.timesDeclared o = 0 ↔ ∀ s, o ∉ (t.scope s).objects := by
  constructor
  · intro hzero s hmem
    have hpos := List.count_pos_iff.mpr hmem
    have hle := t.count_le_timesDeclared s o
    omega
  · intro hnone
    simp only [timesDeclared, List.sum_eq_zero_iff, List.mem_map]
    rintro _ ⟨s, hs, rfl⟩
    obtain ⟨i, hi, rfl⟩ := List.getElem_of_mem hs
    have hscope : t.scope ⟨i⟩ = t.scopes.toList[i] := by
      have hlt : i < t.scopes.size := by simpa using hi
      simp [scope, hlt]
    rw [← hscope]
    exact List.count_eq_zero.mpr (hnone ⟨i⟩)

/-- Nothing holds an object that does not exist. -/
theorem InBounds.timesHeld_eq_zero (h : t.InBounds) {o : ObjectId} (ho : ¬ t.HasObject o) :
    t.timesHeld o = 0 := by
  have hscopes : t.timesDeclared o = 0 := by
    rw [timesDeclared_eq_zero_iff]
    intro s hmem
    by_cases hs : t.HasScope s
    · exact ho ((h.scope s hs).objects o hmem)
    · rw [scope_of_not_hasScope hs] at hmem
      cases hmem
  have hglobals : t.globals.count o = 0 := List.count_eq_zero.mpr fun hmem => ho (h.globals o hmem)
  have hprogram : t.program ≠ some o := fun hsome => ho (h.program o hsome)
  rw [timesHeld, hscopes, hglobals, if_neg hprogram]

theorem timesDeclared_allocate (b : Blueprint) (name : String) (o : ObjectId) :
    (t.allocate b name).timesDeclared o = t.timesDeclared o := by
  unfold timesDeclared allocate newScopes
  split <;> simp

theorem timesDeclared_createScope (owner : ObjectId) (outer : Option ScopeId) (o : ObjectId) :
    (t.createScope owner outer).table.timesDeclared o = t.timesDeclared o := by
  simp [timesDeclared, createScope, Outcome.accepted]

/-- A declaration adds one holder to the declared object and none to any other. -/
theorem timesDeclared_enlist {s : ScopeId} (hs : t.HasScope s) (o p : ObjectId) :
    (t.enlist s o).timesDeclared p = t.timesDeclared p + if p = o then 1 else 0 := by
  have hlt : s.index < t.scopes.toList.length := hs
  have hsum := sum_map_modify hlt (·.add o) (fun s => s.objects.count p)
  have hadded : (t.scopes.toList[s.index].add o).objects.count p =
      t.scopes.toList[s.index].objects.count p + if p = o then 1 else 0 := by
    by_cases heq : p = o
    · simp [Scope.add, heq]
    · simp [Scope.add, heq, Ne.symm heq]
  have hscopes : (t.enlist s o).scopes.toList = t.scopes.toList.modify s.index (·.add o) := by
    unfold enlist listParam
    split <;> simp [modifyScope, modifyObject]
  unfold timesDeclared
  rw [hscopes]
  omega

/-- An object is held once if it is registered and not at all if it is not, and the program of
the table is the only object of its kind. -/
structure SingleOwner (t : Table) : Prop where
  held : ∀ o, t.timesHeld o = if (t.object o).registered then 1 else 0
  program : ∀ o, (t.object o).kind = .program ↔ t.program = some o

private theorem singleOwner_initial (limit : Nat) : (initial limit).SingleOwner := by
  have hbounds := initial_inBounds limit
  constructor
  · rintro ⟨i⟩
    by_cases hi : i < 7
    · interval_cases i <;>
        simp [timesHeld, timesDeclared, object, objects_initial, scopes_initial, globals_initial,
          program_initial]
    · have hnone : ¬ (initial limit).HasObject ⟨i⟩ := hi
      rw [hbounds.timesHeld_eq_zero hnone, object_of_not_hasObject hnone]
      rfl
  · rintro ⟨i⟩
    by_cases hi : i < 7
    · interval_cases i <;> simp [object, objects_initial, program_initial, Object.kind,
        Attributes.kind]
    · have hnone : ¬ (initial limit).HasObject ⟨i⟩ := hi
      rw [object_of_not_hasObject hnone, program_initial]
      constructor
      · intro hkind
        cases hkind
      · intro hsome
        cases hsome

theorem SingleOwner.allocate (h : t.SingleOwner) (hbounds : t.InBounds) {b : Blueprint}
    (name : String) (hfirst : b.kind = .program → t.program = none) :
    (t.allocate b name).SingleOwner := by
  have hnew : t.timesHeld t.nextObject = 0 :=
    hbounds.timesHeld_eq_zero not_hasObject_nextObject
  have hprogram (o : ObjectId) : (t.allocate b name).program = some o ↔
      (b.kind = .program ∧ o = t.nextObject) ∨ t.program = some o := by
    by_cases hkind : b.kind = .program
    · simp [Table.allocate, hkind, hfirst hkind, eq_comm]
    · simp [Table.allocate, hkind]
  constructor
  · intro o
    have hheld := h.held o
    simp only [timesHeld, timesDeclared_allocate, globals_allocate, hprogram] at hheld hnew ⊢
    rw [object_allocate]
    by_cases heq : o = t.nextObject
    · subst heq
      have hnone : t.program ≠ some t.nextObject :=
        fun hsome => not_hasObject_nextObject (hbounds.program _ hsome)
      simp only [hnone, if_true] at hnew ⊢
      by_cases hkind : b.kind = .program <;> simp [hkind] <;> omega
    · simpa [heq] using hheld
  · intro o
    rw [hprogram, object_allocate]
    by_cases heq : o = t.nextObject
    · subst heq
      have hnone : t.program ≠ some t.nextObject :=
        fun hsome => not_hasObject_nextObject (hbounds.program _ hsome)
      simp [Object.kind, hnone]
    · simp [heq, h.program]

theorem SingleOwner.enlist (h : t.SingleOwner) {s : ScopeId} (hs : t.HasScope s) {o : ObjectId}
    (ho : t.HasObject o) (hfresh : (t.object o).registered = false) :
    (t.enlist s o).SingleOwner := by
  constructor
  · intro p
    have hheld := h.held p
    simp only [timesHeld, timesDeclared_enlist hs, globals_enlist, program_enlist,
      registered_enlist] at hheld ⊢
    by_cases heq : p = o
    · subst heq
      simp only [hfresh, ho, and_self, decide_true, Bool.or_true, Bool.false_eq_true, if_true,
        if_false] at hheld ⊢
      omega
    · simpa [heq] using hheld
  · intro p
    rw [kind_enlist, program_enlist]
    exact h.program p

theorem SingleOwner.transition (hbounds : t.InBounds) (hstep : t.Transition t')
    (h : t.SingleOwner) : t'.SingleOwner := by
  cases hstep with
  | create name hfits hlength hfirst => exact h.allocate hbounds name hfirst
  | createScope howner houter =>
    refine ⟨fun o => ?_, h.program⟩
    rw [timesHeld, timesDeclared_createScope]
    exact h.held o
  | assign ho hkind =>
    refine ⟨fun o => ?_, fun o => ?_⟩
    · rw [registered_assign]
      exact h.held o
    · rw [kind_assign]
      exact h.program o
  | enter hs hopen houter => exact ⟨h.held, h.program⟩
  | exit hcurrent => exact ⟨h.held, h.program⟩
  | declare hcurrent ho hfresh => exact h.enlist (hbounds.current _ hcurrent) ho hfresh

theorem Reachable.singleOwner (h : t.Reachable) : t.SingleOwner :=
  h.invariant singleOwner_initial SingleOwner.transition

theorem SingleOwner.timesHeld_le_one (h : t.SingleOwner) (o : ObjectId) : t.timesHeld o ≤ 1 := by
  rw [h.held]
  split <;> omega

/-- What the table holds itself, as its program or among the predeclared routines, no scope
lists. -/
theorem SingleOwner.timesDeclared_root (h : t.SingleOwner) {o : ObjectId}
    (hroot : t.program = some o ∨ o ∈ t.globals) : t.timesDeclared o = 0 := by
  have honce := h.timesHeld_le_one o
  unfold timesHeld at honce
  obtain hprogram | hglobal := hroot
  · rw [if_pos hprogram] at honce
    omega
  · have hpos := List.count_pos_iff.mpr hglobal
    omega

/-- **Single owner.** After any session, an object is held by exactly one container if it is
registered and by none if it is not. The program of the table is the only object of its kind,
and no scope lists it. -/
theorem Reachable.timesHeld_eq_registered (h : t.Reachable) :
    (∀ o, t.timesHeld o = if (t.object o).registered then 1 else 0) ∧
      (∀ o p, (t.object o).kind = .program → (t.object p).kind = .program → o = p) ∧
      (∀ o, (t.object o).kind = .program ↔ t.program = some o) ∧
      ∀ o, t.program = some o → ∀ s, o ∉ (t.scope s).objects := by
  have howner := h.singleOwner
  refine ⟨howner.held, fun o p ho hp => ?_, howner.program, fun o ho => ?_⟩
  · have hsome := (howner.program o).mp ho
    rw [(howner.program p).mp hp] at hsome
    exact (Option.some.inj hsome).symm
  · exact timesDeclared_eq_zero_iff.mp (howner.timesDeclared_root (.inl ho))

/-- Two routines that are declared in each other's bodies, a declaration that is refused, and a
variable that is never declared. -/
def crosswise : List Step :=
  [.command (.create .program "P"), .command (.enter ⟨5⟩),
   .command (.create .procedure "p"), .command (.create .function "q"),
   .command (.enter ⟨6⟩), .command (.declare ⟨9⟩), .command .exit,
   .command (.enter ⟨7⟩), .command (.declare ⟨8⟩), .command .exit,
   .command (.declare ⟨8⟩), .command (.create .var "v")]

theorem reachable_crosswise : ((initial 15).after crosswise).Reachable := by
  have hadmits : (initial 15).Admits crosswise := by decide
  exact (Reachable.initial 15).after hadmits

theorem timesHeld_crosswise :
    ((initial 15).after crosswise).Reachable ∧
      ((initial 15).after crosswise).timesHeld ⟨8⟩ = 1 ∧
      ((initial 15).after crosswise).timesHeld ⟨10⟩ = 0 ∧
      ∀ s, ⟨7⟩ ∉ (((initial 15).after crosswise).scope s).objects := by
  obtain ⟨hheld, _, _, hprogram⟩ := reachable_crosswise.timesHeld_eq_registered
  refine ⟨reachable_crosswise, ?_, ?_, hprogram ⟨7⟩ (by decide)⟩
  · exact (hheld ⟨8⟩).trans (by decide)
  · exact (hheld ⟨10⟩).trans (by decide)

end BlockScope.Table
