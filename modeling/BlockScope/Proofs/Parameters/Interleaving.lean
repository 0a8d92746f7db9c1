import Mathlib.Data.List.Nodup
import Mathlib.Logic.Function.Basic

namespace BlockScope

/-- A list that grew at its end together with one of the parts at a time. So it consists of the
parts and keeps the order of each. -/
inductive Interleaves {ι α : Type} [DecidableEq ι] : (parts : ι → List α) → List α → Prop
  | nil : Interleaves (fun _ => []) []
  | snoc {parts : ι → List α} {list : List α} (h : Interleaves parts list) (i : ι) (a : α) :
      Interleaves (Function.update parts i (parts i ++ [a])) (list ++ [a])

namespace Interleaves

variable {ι α : Type} [DecidableEq ι] {parts : ι → List α} {list : List α} {a : α}

theorem of_forall_eq_nil (hparts : ∀ i, parts i = []) : Interleaves parts [] := by
  obtain rfl : parts = fun _ => [] := funext hparts
  exact .nil

theorem singleton (i : ι) (hpart : parts i = [a]) (honly : ∀ j, j ≠ i → parts j = []) :
    Interleaves parts [a] := by
  have hparts : parts = Function.update (fun _ => []) i ([] ++ [a]) := by
    funext j
    obtain rfl | hne := eq_or_ne j i
    · simp [hpart]
    · simp [hne, honly j hne]
  rw [hparts]
  exact .snoc .nil i a

theorem mem_iff (h : Interleaves parts list) : a ∈ list ↔ ∃ i, a ∈ parts i := by
  induction h with
  | nil => simp
  | @snoc parts list _ i b ih =>
    rw [List.mem_append, List.mem_singleton, ih]
    constructor
    · rintro (⟨j, hj⟩ | rfl)
      · obtain rfl | hne := eq_or_ne j i
        · exact ⟨j, by simp [hj]⟩
        · exact ⟨j, by simp [hne, hj]⟩
      · exact ⟨i, by simp⟩
    · rintro ⟨j, hj⟩
      obtain rfl | hne := eq_or_ne j i
      · rw [Function.update_self, List.mem_append, List.mem_singleton] at hj
        exact hj.imp_left fun hj => ⟨j, hj⟩
      · rw [Function.update_of_ne hne] at hj
        exact .inl ⟨j, hj⟩

/-- Without repetitions in the parts, or from one part to another, there are none in the list. -/
theorem nodup (h : Interleaves parts list) (hparts : ∀ i, (parts i).Nodup)
    (hapart : ∀ {i j a}, a ∈ parts i → a ∈ parts j → i = j) : list.Nodup := by
  induction h with
  | nil => exact .nil
  | @snoc parts list h i b ih =>
    have hmore {j : ι} {a : α} (ha : a ∈ parts j) :
        a ∈ Function.update parts i (parts i ++ [b]) j := by
      obtain rfl | hne := eq_or_ne j i
      · simp [ha]
      · simp [hne, ha]
    have hlast := hparts i
    rw [Function.update_self, List.nodup_append] at hlast
    have hbefore (j : ι) : (parts j).Nodup := by
      obtain rfl | hne := eq_or_ne j i
      · exact hlast.1
      · have hsame := hparts j
        rwa [Function.update_of_ne hne] at hsame
    have hlist := ih hbefore fun hi hj => hapart (hmore hi) (hmore hj)
    refine List.nodup_append.mpr ⟨hlist, List.nodup_singleton b, ?_⟩
    rintro a ha _ hb rfl
    obtain rfl := List.mem_singleton.mp hb
    obtain ⟨j, hj⟩ := h.mem_iff.mp ha
    obtain rfl : j = i := hapart (hmore hj) (by simp)
    exact hlast.2.2 a hj a hb rfl

/-- If only one of the parts has elements, that part is the whole list. -/
theorem eq_of_only (h : Interleaves parts list) (i : ι) (honly : ∀ j, j ≠ i → parts j = []) :
    list = parts i := by
  induction h with
  | nil => rfl
  | @snoc parts list _ j b ih =>
    obtain rfl | hne := eq_or_ne j i
    · rw [Function.update_self, ih]
      intro k hk
      rw [← honly k hk, Function.update_of_ne hk]
    · have hempty := honly j hne
      simp at hempty

end Interleaves

end BlockScope
