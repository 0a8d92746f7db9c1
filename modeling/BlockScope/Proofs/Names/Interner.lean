import Mathlib.Data.List.Basic
import Mathlib.Data.List.Induction

namespace BlockScope

/-- A store of names. A name has a symbol from the moment on when the store is given the name. -/
structure Interner (Store Symbol : Type) where
  empty : Store
  /-- The symbol of a name, if the store has the name. Asking does not put it there. -/
  get? : Store → String → Option Symbol
  /-- The symbol of a name, and the store that has the name. -/
  intern : Store → String → Symbol × Store
  /-- The name that a symbol stands for. -/
  resolve? : Store → Symbol → Option String

namespace Interner

variable {Store Symbol : Type}

/-- A store that is given a name has that name and all that it had before. A name that is there
already keeps its symbol, and the symbol leads back to the name. -/
structure Lawful (names : Interner Store Symbol) : Prop where
  get?_intern : ∀ store name other, names.get? (names.intern store name).2 other =
    if other = name then some (names.intern store name).1 else names.get? store other
  intern_of_get? : ∀ {store name symbol}, names.get? store name = some symbol →
    (names.intern store name).1 = symbol
  resolve?_of_get? : ∀ {store name symbol}, names.get? store name = some symbol →
    names.resolve? store symbol = some name

/-- The store that has been given the names of a list, one after the other. -/
def storeOf (names : Interner Store Symbol) (list : List String) : Store :=
  list.foldl (fun store name => (names.intern store name).2) names.empty

theorem storeOf_concat (names : Interner Store Symbol) (list : List String) (name : String) :
    names.storeOf (list ++ [name]) = (names.intern (names.storeOf list) name).2 :=
  List.foldl_concat _ _ _ _

namespace Lawful

variable {names : Interner Store Symbol} {store : Store} {name other : String} {symbol : Symbol}
  {list : List String}

/-- Different names have different symbols. -/
theorem eq_of_get? (h : names.Lawful) (hname : names.get? store name = some symbol)
    (hother : names.get? store other = some symbol) : name = other := by
  have hresolve := (h.resolve?_of_get? hname).symm.trans (h.resolve?_of_get? hother)
  exact Option.some.inj hresolve

/-- A symbol is given for good: whatever names follow, it is the symbol of its name. -/
theorem get?_storeOf_append (h : names.Lawful)
    (hget : names.get? (names.storeOf list) name = some symbol) (later : List String) :
    names.get? (names.storeOf (list ++ later)) name = some symbol := by
  induction later using List.reverseRecOn with
  | nil => rwa [List.append_nil]
  | append_singleton later next ih =>
    rw [← List.append_assoc, storeOf_concat, h.get?_intern]
    by_cases heq : name = next
    · subst heq
      rw [if_pos rfl, h.intern_of_get? ih]
    · rw [if_neg heq]
      exact ih

/-- The symbol that a name of the list got in its turn is the one that the store knows it by. -/
theorem get?_storeOf_getElem (h : names.Lawful) {i : Nat} (hi : i < list.length) :
    names.get? (names.storeOf list) list[i] =
      some (names.intern (names.storeOf (list.take i)) list[i]).1 := by
  have hfirst : names.get? (names.storeOf (list.take i ++ [list[i]])) list[i] =
      some (names.intern (names.storeOf (list.take i)) list[i]).1 := by
    rw [storeOf_concat, h.get?_intern, if_pos rfl]
  have hlater := h.get?_storeOf_append hfirst (list.drop (i + 1))
  rwa [← List.take_succ_eq_append_getElem hi, List.take_append_drop] at hlater

end Lawful

/-- The interner that numbers the names in the order in which it is given them. -/
def numbered : Interner (List String) Nat where
  empty := []
  get? list name := if name ∈ list then some (list.idxOf name) else none
  intern list name :=
    if name ∈ list then (list.idxOf name, list) else (list.length, list ++ [name])
  resolve? list i := list[i]?

theorem lawful_numbered : numbered.Lawful where
  get?_intern list name other := by
    by_cases hknown : name ∈ list
    · by_cases heq : other = name
      · simp [numbered, hknown, heq]
      · simp [numbered, hknown, heq]
    · by_cases heq : other = name
      · simp [numbered, hknown, heq, List.idxOf_append]
      · by_cases hother : other ∈ list
        · simp [numbered, hknown, heq, hother, List.idxOf_append]
        · simp [numbered, hknown, heq, hother]
  intern_of_get? {list name i} hget := by
    by_cases hknown : name ∈ list
    · simpa [numbered, hknown] using hget
    · simp [numbered, hknown] at hget
  resolve?_of_get? {list name i} hget := by
    by_cases hknown : name ∈ list
    · obtain rfl : list.idxOf name = i := by simpa [numbered, hknown] using hget
      exact List.getElem?_idxOf hknown
    · simp [numbered, hknown] at hget

end Interner

end BlockScope
