import BlockScope.Proofs.Dump.Text
import BlockScope.Table.Lookup

namespace BlockScope

namespace Ty

/-- The type that stands `depth` array levels inside a type, if it has as many. -/
def elementAt? : (depth : Nat) → Ty → Option Ty
  | 0, ty => some ty
  | depth + 1, ty => ty.element?.bind (elementAt? depth)

/-- The type with `new` in the place of what stands `depth` array levels inside it. -/
def replaceAt : (depth : Nat) → Ty → (new : Ty) → Ty
  | 0, _, new => new
  | depth + 1, array size element, new => array size (element.replaceAt depth new)
  | _ + 1, ty, _ => ty

variable {ty ty' old new : Ty} {depth : Nat}

private theorem agrees_iff : ty.agrees ty' ↔ ty = ty' := by
  induction ty generalizing ty' with
  | int => cases ty' <;> simp [agrees]
  | char => cases ty' <;> simp [agrees]
  | array size element ih =>
    cases ty' with
    | array size' element' => simp [agrees, ih]
    | _ => simp [agrees]

private theorem agrees_equivalence : Equivalence fun ty ty' : Ty => ty.agrees ty' := by
  simp only [agrees_iff]
  exact eq_equivalence

private theorem copy_eq (ty : Ty) : ty.copy = ty := by
  induction ty with
  | int => rfl
  | char => rfl
  | array size element ih => rw [copy, ih]

/-- Where an element type is exchanged, the new one stands in its place. -/
theorem elementAt?_replaceAt (h : ty.elementAt? depth = some old) (new : Ty) :
    (ty.replaceAt depth new).elementAt? depth = some new := by
  induction depth generalizing ty with
  | zero => rfl
  | succ depth ih =>
    cases ty with
    | int => cases h
    | char => cases h
    | array size element => exact ih h

/-- The levels around an element type neither hide nor add a difference. -/
theorem agrees_replaceAt (h : ty.elementAt? depth = some old) (new : Ty) :
    ty.agrees (ty.replaceAt depth new) = old.agrees new := by
  induction depth generalizing ty with
  | zero =>
    obtain rfl : ty = old := Option.some.inj h
    rfl
  | succ depth ih =>
    cases ty with
    | int => cases h
    | char => cases h
    | array size element =>
      have helement : element.agrees (element.replaceAt depth new) = old.agrees new := ih h
      rw [replaceAt, agrees, helement, beq_self_eq_true, Bool.true_and]

private theorem agrees_iff_text_eq : ty.agrees ty' ↔ ty.text = ty'.text :=
  agrees_iff.trans text_injective.eq_iff.symm

end Ty

/-- A demand for one type is refused exactly to the types that read differently. -/
theorem TyDemand.check_exactly_eq_error_iff {expected found : Ty} {e : SemanticError} :
    (exactly expected).check found = .error e ↔
      expected.text ≠ found.text ∧ e = .typeInconsistency (.exactly expected) found := by
  have haccepts : (exactly expected).accepts found ↔ expected.text = found.text :=
    Ty.agrees_iff_text_eq
  unfold check
  by_cases hsame : expected.text = found.text
  · simp [haccepts.mpr hsame, hsame]
  · simp [mt haccepts.mp hsame, hsame, eq_comm]

/-- Agreement with the type is structural identity, and shows in the texts. -/
structure Ty.ReadsInText (a : Ty) : Prop where
  eq_iff : ∀ b, a.agrees b ↔ a = b
  text_iff : ∀ b, a.agrees b ↔ a.text = b.text
  copy : a.agrees a.copy
  refused_iff : ∀ b e, (TyDemand.exactly a).check b = .error e ↔
    a.text ≠ b.text ∧ e = .typeInconsistency (.exactly a) b
  message : ∀ b, (SemanticError.typeInconsistency (.exactly a) b).message =
    "type inconsistency: expected " ++ a.text ++ ", found " ++ b.text
  replaced : ∀ old new depth, a.elementAt? depth = some old →
    (a.replaceAt depth new).elementAt? depth = some new ∧
      a.agrees (a.replaceAt depth new) = old.agrees new

/-- **Types agree exactly if they read the same.** Agreement is structural identity, so it is an
equivalence and holds between a type and its copy, and two types have the same text exactly if they
are the same. A demand for one type is refused exactly if the two texts in the complaint differ.
If an element type anywhere inside a type is exchanged for another, the whole types agree exactly as
the two element types do. Literals have the same text exactly if they are the same, too. -/
theorem agreement_reads_in_text :
    (∀ a : Ty, a.ReadsInText) ∧ (Equivalence fun a b : Ty => a.agrees b) ∧
      ∀ v w : Literal, v.text = w.text ↔ v = w := by
  refine ⟨fun a => ?_, Ty.agrees_equivalence, fun v w => Literal.text_injective.eq_iff⟩
  exact {
    eq_iff := fun b => Ty.agrees_iff
    text_iff := fun b => Ty.agrees_iff_text_eq
    copy := Ty.agrees_iff.mpr a.copy_eq.symm
    refused_iff := fun b e => TyDemand.check_exactly_eq_error_iff
    message := fun b => rfl
    replaced := fun old new depth h =>
      ⟨Ty.elementAt?_replaceAt h new, Ty.agrees_replaceAt h new⟩ }

/-- An array of arrays of empty arrays, whose outermost size could not exist. -/
def buried : Ty :=
  .array (-1) (.array 5 (.array 0 .char))

/-- The base type is exchanged, three levels inside. -/
theorem agreement_reads_in_text_buried :
    buried.elementAt? 3 = some .char ∧
      buried.replaceAt 3 .int = .array (-1) (.array 5 (.array 0 .int)) ∧
      buried.agrees (buried.replaceAt 3 .int) = false ∧
      (TyDemand.exactly buried).check (buried.replaceAt 3 .int) =
        .error (.typeInconsistency (.exactly buried) (buried.replaceAt 3 .int)) ∧
      (SemanticError.typeInconsistency (.exactly buried) (buried.replaceAt 3 .int)).message =
        "type inconsistency: expected Arr(-1,Arr(5,Arr(0,Char))), " ++
          "found Arr(-1,Arr(5,Arr(0,Int)))" := by
  have hreads := agreement_reads_in_text.1 buried
  have hinside : buried.elementAt? 3 = some .char := rfl
  have hother : buried.agrees (buried.replaceAt 3 .int) = false :=
    (hreads.replaced .char .int 3 hinside).2
  have htext : buried.text ≠ (buried.replaceAt 3 .int).text := fun htext => by
    rw [(hreads.text_iff _).mpr htext] at hother
    cases hother
  refine ⟨hinside, rfl, hother, (hreads.refused_iff _ _).mpr ⟨htext, rfl⟩, ?_⟩
  rw [hreads.message]
  decide +kernel

end BlockScope
