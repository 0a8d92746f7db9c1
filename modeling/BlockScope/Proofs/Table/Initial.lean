import Mathlib.Tactic.IntervalCases
import BlockScope.Proofs.Session.Bounds
import BlockScope.Table.Create

namespace BlockScope.Table

variable (limit : Nat)

theorem objects_initial : (initial limit).objects =
    #[⟨"READC", .function [] (some .char) ⟨0⟩, true⟩,
      ⟨"READI", .function [] (some .int) ⟨1⟩, true⟩,
      ⟨"WRITEI", .procedure [⟨3⟩] ⟨2⟩, true⟩,
      ⟨"i", .parameter (some .int) .byValue ⟨2⟩, true⟩,
      ⟨"WRITEC", .procedure [⟨5⟩] ⟨3⟩, true⟩,
      ⟨"ch", .parameter (some .char) .byValue ⟨4⟩, true⟩,
      ⟨"WRITELN", .procedure [] ⟨4⟩, true⟩] :=
  rfl

theorem scopes_initial : (initial limit).scopes =
    #[⟨[], ⟨0⟩, none⟩, ⟨[], ⟨1⟩, none⟩, ⟨[⟨3⟩], ⟨2⟩, none⟩, ⟨[⟨5⟩], ⟨4⟩, none⟩,
      ⟨[], ⟨6⟩, none⟩] :=
  rfl

theorem globals_initial : (initial limit).globals = [⟨0⟩, ⟨1⟩, ⟨2⟩, ⟨4⟩, ⟨6⟩] :=
  rfl

theorem program_initial : (initial limit).program = none :=
  rfl

theorem current_initial : (initial limit).current = none :=
  rfl

theorem hasObject_initial {o : ObjectId} : (initial limit).HasObject o ↔ o.index < 7 :=
  Iff.rfl

theorem hasScope_initial {s : ScopeId} : (initial limit).HasScope s ↔ s.index < 5 :=
  Iff.rfl

theorem initial_inBounds : (initial limit).InBounds := by
  refine ⟨by simp [program_initial], by simp [globals_initial, hasObject_initial],
    by simp [current_initial], ?_, ?_⟩
  · rintro ⟨i⟩ hi
    have hlt : i < 7 := hi
    interval_cases i <;>
      simp [object, objects_initial, Attributes.InBounds, hasObject_initial, hasScope_initial]
  · rintro ⟨i⟩ hi
    have hlt : i < 5 := hi
    interval_cases i <;> constructor <;> simp [scope, scopes_initial, hasObject_initial]

end BlockScope.Table
