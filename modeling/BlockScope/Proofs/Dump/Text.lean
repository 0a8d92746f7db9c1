import Mathlib
import BlockScope.Ty

namespace BlockScope

/-- Texts that are followed by a separator which is in neither of them can be told apart from what
comes after it. -/
theorem append_cons_inj {α : Type} {a : α} {first first' rest rest' : List α} (h : a ∉ first)
    (h' : a ∉ first') (heq : first ++ a :: rest = first' ++ a :: rest') :
    first = first' ∧ rest = rest' := by
  induction first generalizing first' with
  | nil =>
    cases first' with
    | nil => exact ⟨rfl, (List.cons.inj heq).2⟩
    | cons b later => exact absurd (List.mem_cons.mpr (.inl (List.cons.inj heq).1)) h'
  | cons b first ih =>
    cases first' with
    | nil => exact absurd (List.mem_cons.mpr (.inl (List.cons.inj heq).1.symm)) h
    | cons c later =>
      obtain ⟨rfl, hrest⟩ := List.cons.inj heq
      obtain ⟨rfl, rfl⟩ := ih (fun hmem => h (List.mem_cons_of_mem _ hmem))
        (fun hmem => h' (List.mem_cons_of_mem _ hmem)) hrest
      exact ⟨rfl, rfl⟩

/-- Decimals are made of digits and a sign. -/
theorem isDigit_or_eq_of_mem_repr {n : Int} {c : Char} (h : c ∈ n.repr.toList) :
    c.isDigit ∨ c = '-' := by
  have hdigits (m : Nat) (hc : c ∈ m.repr.toList) : c.isDigit := by
    rw [Nat.toList_repr] at hc
    exact Nat.isDigit_of_mem_toDigits (by decide) (by decide) hc
  rw [Int.repr_eq_if] at h
  split at h
  · exact .inl (hdigits _ h)
  · rw [String.toList_append] at h
    obtain hsign | hmem := List.mem_append.mp h
    · exact .inr (by simpa using hsign)
    · exact .inl (hdigits _ hmem)

private theorem comma_not_mem_repr (n : Int) : ',' ∉ n.repr.toList := fun h =>
  absurd (isDigit_or_eq_of_mem_repr h) (by decide)

namespace Ty

theorem toList_text_int : int.text.toList = ['I', 'n', 't'] :=
  rfl

theorem toList_text_char : char.text.toList = ['C', 'h', 'a', 'r'] :=
  rfl

theorem toList_text_array (size : Int32) (element : Ty) : (array size element).text.toList =
    ['A', 'r', 'r', '('] ++ (size.toInt.repr.toList ++ ',' :: (element.text.toList ++ [')'])) := by
  have hopen : "Arr(".toList = ['A', 'r', 'r', '('] := rfl
  have hcomma : ",".toList = [','] := rfl
  have hclose : ")".toList = [')'] := rfl
  simp only [text, Int.toString_eq_repr, String.toList_append, hopen, hcomma, hclose,
    List.append_assoc, List.cons_append, List.nil_append]

/-- The text of a type tells where it ends, and what the type is. -/
private theorem text_append_inj {ty ty' : Ty} {rest rest' : List Char}
    (h : ty.text.toList ++ rest = ty'.text.toList ++ rest') : ty = ty' ∧ rest = rest' := by
  have hfirst := congrArg List.head? h
  induction ty generalizing ty' rest rest' with
  | int =>
    cases ty' with
    | int => exact ⟨rfl, List.append_cancel_left h⟩
    | char => exact absurd hfirst (by rw [toList_text_int, toList_text_char]; simp)
    | array size element => exact absurd hfirst (by rw [toList_text_int, toList_text_array]; simp)
  | char =>
    cases ty' with
    | int => exact absurd hfirst (by rw [toList_text_int, toList_text_char]; simp)
    | char => exact ⟨rfl, List.append_cancel_left h⟩
    | array size element => exact absurd hfirst (by rw [toList_text_char, toList_text_array]; simp)
  | array size element ih =>
    cases ty' with
    | int => exact absurd hfirst (by rw [toList_text_int, toList_text_array]; simp)
    | char => exact absurd hfirst (by rw [toList_text_char, toList_text_array]; simp)
    | array size' element' =>
      rw [toList_text_array, toList_text_array] at h
      simp only [List.append_assoc, List.cons_append, List.nil_append, List.cons.injEq,
        true_and] at h
      obtain ⟨hsize, helement⟩ :=
        append_cons_inj (comma_not_mem_repr size.toInt) (comma_not_mem_repr size'.toInt) h
      obtain ⟨rfl, hrest⟩ := ih helement (congrArg List.head? helement)
      have hint := Int.repr_injective (String.toList_injective hsize)
      obtain rfl := Int32.toInt_inj.mp hint
      exact ⟨rfl, (List.cons.inj hrest).2⟩

theorem text_injective : Function.Injective text := fun ty ty' h => by
  have hlist : ty.text.toList ++ [] = ty'.text.toList ++ [] := by rw [h]
  exact (text_append_inj hlist).1

end Ty

/-- A literal shows whether it is a character, and which character or number it is. -/
theorem Literal.text_injective : Function.Injective Literal.text := by
  intro value value' h
  have hquote (n : Int32) (c : Char) : n.toInt.repr ≠ "'" ++ String.singleton c ++ "'" := by
    intro heq
    have hmem : '\'' ∈ n.toInt.repr.toList := by simp [heq]
    exact absurd (isDigit_or_eq_of_mem_repr hmem) (by decide)
  cases value with
  | int n =>
    cases value' with
    | int n' =>
      simp only [text, Int.toString_eq_repr] at h
      rw [Int32.toInt_inj.mp (Int.repr_injective h)]
    | char c => exact absurd h (hquote n c)
  | char c =>
    cases value' with
    | int n' => exact absurd h.symm (hquote n' c)
    | char c' =>
      have hlist := congrArg String.toList h
      obtain rfl : c = c' := by simpa [text] using hlist
      rfl

end BlockScope
