import Mathlib.Logic.ExistsUnique
import BlockScope.Proofs.Names.Lookup
import BlockScope.Proofs.Session.Answers

namespace BlockScope

/-- The kinds that a place in a program may ask of a name. No place asks for a program or for a
parameter as such. -/
def Kind.asked : List Kind :=
  [.constant, .alias, .var, .function, .procedure]

private theorem Kind.mem_asked_iff {kind : Kind} :
    kind ∈ asked ↔ kind ≠ .program ∧ kind ≠ .parameter := by
  cases kind <;> decide

theorem Kind.isRoutine_iff {kind : Kind} :
    kind.isRoutine ↔ kind = .function ∨ kind = .procedure := by
  cases kind <;> decide

namespace Table

variable {t : Table} {name : String} {o : ObjectId}

private theorem checkKind_of_none (h : t.lookup? name = none) (kind : Kind) :
    t.checkKind kind name = .error (.undeclared (.kind kind) name) := by
  rw [checkKind, resolve_of_none h]
  rfl

private theorem checkKind_of_some (h : t.lookup? name = some o) (kind : Kind) :
    t.checkKind kind name =
    if (t.object o).kind = kind then .ok o else .error (.invalidKind name (.kind kind)) := by
  rw [checkKind, resolve_of_some h]
  rfl

private theorem checkKind_eq_ok_iff (h : t.lookup? name = some o) :
    t.checkKind kind name = .ok o ↔ (t.object o).kind = kind := by
  rw [checkKind_of_some h]
  by_cases hkind : (t.object o).kind = kind <;> simp [hkind]

/-- A check has the object that the name means, or complains that it is not what was asked for. -/
theorem checkKind_cases (h : t.lookup? name = some o) (kind : Kind) :
    t.checkKind kind name = .ok o ∨
      t.checkKind kind name = .error (.invalidKind name (.kind kind)) := by
  rw [checkKind_of_some h]
  exact ite_eq_or_eq _ _ _

private theorem checkLValue_cases (h : t.lookup? name = some o) :
    t.checkLValue name = .ok o ∨ t.checkLValue name = .error (.invalidKind name .lvalue) := by
  rw [checkLValue_of_some h]
  exact ite_eq_or_eq _ _ _

/-- No name means the program, not even its own. -/
theorem Reachable.kind_ne_program_of_lookup? (h : t.Reachable) (hfound : t.lookup? name = some o) :
    (t.object o).kind ≠ .program := fun hkind =>
  (h.registered_of_lookup? hfound).2 ((h.singleOwner.program o).mp hkind)

/-- What a name means is of one of the kinds that are asked for, unless it is a parameter. -/
theorem Reachable.existsUnique_checkKind (h : t.Reachable) (hfound : t.lookup? name = some o)
    (hparam : (t.object o).kind ≠ .parameter) :
    ∃! kind, kind ∈ Kind.asked ∧ t.checkKind kind name = .ok o := by
  refine ⟨(t.object o).kind, ⟨?_, (checkKind_eq_ok_iff hfound).mpr rfl⟩, fun kind hkind => ?_⟩
  · exact Kind.mem_asked_iff.mpr ⟨h.kind_ne_program_of_lookup? hfound, hparam⟩
  · exact ((checkKind_eq_ok_iff hfound).mp hkind.2).symm

private theorem exists_params_of_isRoutine (h : (t.object o).kind.isRoutine) :
    ∃ params, t.params o = .ok params := by
  obtain ⟨params, hparams⟩ := params?_isSome_of_isRoutine h
  exact ⟨params, params_eq_ok_iff.mpr hparams⟩

private theorem exists_bodyScope_of_isRoutine (h : (t.object o).kind.isRoutine) :
    ∃ s, t.bodyScope o = .ok s := by
  obtain ⟨s, hs⟩ := body?_isSome_of_isRoutine h
  exact ⟨s, bodyScope_eq_ok_iff.mpr hs⟩

/-- The name is undeclared to every check, each of which says what it was asked for. -/
structure UndeclaredToAll (t : Table) (name : String) : Prop where
  declared : t.checkDeclared name = .error (.undeclared .identifier name)
  lvalue : t.checkLValue name = .error (.undeclared .identifier name)
  kinds : ∀ kind ∈ Kind.asked, t.checkKind kind name = .error (.undeclared (.kind kind) name)

/-- Every check of the name has the object or complains that it cannot be used so: exactly one check
of a kind has it, but none has a parameter, and it may be assigned to exactly if it is a variable, a
parameter or the function whose body is the current scope. What has passed the check of a kind
answers the questions that go with the kind: about its value, its type or its result type, with a
missing record as the only excuse, and about the parameters and the body of a routine without
exception. -/
structure CheckedAs (t : Table) (name : String) (o : ObjectId) : Prop where
  declared : t.checkDeclared name = .ok o
  kinds : ∀ kind ∈ Kind.asked, t.checkKind kind name = .ok o ∨
    t.checkKind kind name = .error (.invalidKind name (.kind kind))
  lvalue : t.checkLValue name = .ok o ∨ t.checkLValue name = .error (.invalidKind name .lvalue)
  oneKind : (t.object o).kind ≠ .parameter →
    ∃! kind, kind ∈ Kind.asked ∧ t.checkKind kind name = .ok o
  noKind : (t.object o).kind = .parameter → ∀ kind ∈ Kind.asked, t.checkKind kind name ≠ .ok o
  assignable : t.checkLValue name = .ok o ↔ (t.object o).kind = .var ∨
    (t.object o).kind = .parameter ∨
    (t.object o).kind = .function ∧ ∃ s, t.current = some s ∧ (t.scope s).owner = o
  constant : t.checkKind .constant name = .ok o →
    ∀ e, t.constantValue o = .error e → e = .unresolvedDeclaration name
  typed : t.checkKind .alias name = .ok o ∨ t.checkKind .var name = .ok o →
    ∀ e, t.declaredType o = .error e → e = .unresolvedDeclaration name
  function : t.checkKind .function name = .ok o →
    ∀ e, t.returnType o = .error e → e = .unresolvedDeclaration name
  routine : t.checkKind .function name = .ok o ∨ t.checkKind .procedure name = .ok o →
    (∃ params, t.params o = .ok params) ∧ ∃ s, t.bodyScope o = .ok s

/-- A name that means something is checked as what it means. -/
theorem Reachable.checkedAs (h : t.Reachable) (hfound : t.lookup? name = some o) :
    t.CheckedAs name o := by
  have hkind {kind : Kind} (hcheck : t.checkKind kind name = .ok o) : (t.object o).kind = kind :=
    (checkKind_eq_ok_iff hfound).mp hcheck
  obtain rfl := name_of_lookup? hfound
  constructor
  case declared => exact resolve_of_some hfound _
  case kinds => exact fun kind _ => checkKind_cases hfound kind
  case lvalue => exact checkLValue_cases hfound
  case oneKind => exact h.existsUnique_checkKind hfound
  case noKind =>
    intro hparam kind hasked hcheck
    exact (Kind.mem_asked_iff.mp hasked).2 ((hkind hcheck).symm.trans hparam)
  case assignable => rw [checkLValue_eq_ok_iff, and_iff_right hfound, isAssignable_iff]
  case constant =>
    intro hcheck e herror
    have hconstant := hkind hcheck
    exact (t.constantValue_answersFrom o).eq_unresolved (by simp [hconstant]) herror
  case typed =>
    intro hcheck e herror
    refine (t.declaredType_answersFrom o).eq_unresolved ?_ herror
    obtain halias | hvar := hcheck.imp hkind hkind
    · simp [halias]
    · simp [hvar]
  case function =>
    intro hcheck e herror
    have hfunction := hkind hcheck
    exact (t.returnType_answersFrom o).eq_unresolved (by simp [hfunction]) herror
  case routine =>
    intro hcheck
    have hroutine := Kind.isRoutine_iff.mpr (hcheck.imp hkind hkind)
    exact ⟨exists_params_of_isRoutine hroutine, exists_bodyScope_of_isRoutine hroutine⟩

/-- **The checks tell names apart by what they mean,** after any session. -/
theorem Reachable.checks_partition (h : t.Reachable) (name : String) :
    (t.lookup? name = none → t.UndeclaredToAll name) ∧
      ∀ o, t.lookup? name = some o → t.CheckedAs name o :=
  ⟨fun hnone => ⟨resolve_of_none hnone _, checkLValue_of_none hnone,
    fun kind _ => checkKind_of_none hnone kind⟩, fun _ => h.checkedAs⟩

/-- In the body of a function with a parameter, a constant without a value hides a predeclared
function. The program is not declared, though the session tries to. -/
def assigning : List Step :=
  [.command (.create .program "P"), .command (.enter ⟨5⟩), .command (.declare ⟨7⟩),
   .command (.create .function "f"), .command (.declare ⟨8⟩), .command (.enter ⟨6⟩),
   .command (.create (.parameter .byValue ⟨8⟩) "x"), .command (.declare ⟨9⟩),
   .command (.create .constant "READI"), .command (.declare ⟨10⟩)]

theorem checks_partition_assigning :
    let t := (initial 15).after assigning
    t.Reachable ∧ t.checkKind .procedure "P" = .error (.undeclared (.kind .procedure) "P") ∧
      t.checkLValue "f" = .ok ⟨8⟩ ∧ t.checkLValue "READC" ≠ .ok ⟨0⟩ ∧
      (∃ params, t.params ⟨8⟩ = .ok params) ∧
      (∃! kind, kind ∈ Kind.asked ∧ t.checkKind kind "READI" = .ok ⟨10⟩) ∧
      (∀ e, t.constantValue ⟨10⟩ = .error e → e = .unresolvedDeclaration "READI") ∧
      t.checkKind .var "x" ≠ .ok ⟨9⟩ ∧ t.checkLValue "x" = .ok ⟨9⟩ := by
  intro t
  have hreachable : t.Reachable := (Reachable.initial 15).after (by decide)
  have hp := (hreachable.checks_partition "P").1 (by decide)
  have hf := (hreachable.checks_partition "f").2 ⟨8⟩ (by decide)
  have hreadc := (hreachable.checks_partition "READC").2 ⟨0⟩ (by decide)
  have hreadi := (hreachable.checks_partition "READI").2 ⟨10⟩ (by decide)
  have hx := (hreachable.checks_partition "x").2 ⟨9⟩ (by decide)
  refine ⟨hreachable, hp.kinds _ (by decide), hf.assignable.mpr ?_, mt hreadc.assignable.mp ?_,
    (hf.routine (by decide)).1, hreadi.oneKind (by decide), hreadi.constant (by decide),
    hx.noKind (by decide) _ (by decide), hx.assignable.mpr (by decide)⟩
  · exact .inr (.inr ⟨by decide, ⟨6⟩, by decide, by decide⟩)
  · rintro (hvar | hparam | ⟨_, s, hcurrent, howner⟩)
    · exact absurd hvar (by decide)
    · exact absurd hparam (by decide)
    · have hs : t.current = some ⟨6⟩ := by decide
      obtain rfl := Option.some.inj (hs.symm.trans hcurrent)
      exact absurd howner (by decide)

end Table

end BlockScope
