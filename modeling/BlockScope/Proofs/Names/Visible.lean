import BlockScope.Proofs.Block.Lookup
import BlockScope.Proofs.Names.Distinct

namespace BlockScope.Table

variable {t : Table} {s : ScopeId} {o : ObjectId}

/-- Where names are distinct, an object is found by its name. -/
theorem NamesDistinct.findIn?_eq (h : t.NamesDistinct) (ho : o ∈ (t.scope s).objects) :
    t.findIn? s (t.name o) = some o := by
  have hnodup : ((t.scope s).objects.map t.name).Nodup := h s
  unfold findIn? find?
  generalize (t.scope s).objects = list at ho hnodup
  induction list with
  | nil => cases ho
  | cons p list ih =>
    obtain ⟨hfirst, hrest⟩ := List.nodup_cons.mp hnodup
    obtain rfl | hlater := List.mem_cons.mp ho
    · exact List.find?_cons_of_pos (beq_self_eq_true _)
    · have hne : (t.name p == t.name o) = false :=
        beq_false_of_ne fun heq => hfirst (heq ▸ List.mem_map_of_mem hlater)
      rw [List.find?_cons, hne]
      exact ih hlater hrest

/-- Where names are distinct, the name of an object means this object, unless it is hidden by an
object of the same name further in. That is another object, for only one scope lists it. -/
theorem NamesDistinct.lookup?_eq_iff (h : t.NamesDistinct) (hreachable : t.Reachable)
    {inner outer : List ScopeId} (hchain : t.chain = inner ++ s :: outer)
    (ho : o ∈ (t.scope s).objects) :
    t.lookup? (t.name o) = some o ↔ ∀ u ∈ inner, t.name o ∉ t.namesIn u := by
  have hfound := h.findIn?_eq ho
  unfold lookup?
  rw [hchain, List.findSome?_append, List.findSome?_cons, hfound]
  cases hinner : inner.findSome? fun u => t.findIn? u (t.name o) with
  | none =>
    simp only [Option.none_or, Option.some_or, true_iff]
    intro u hu
    exact findIn?_eq_none_iff.mp (List.findSome?_eq_none_iff.mp hinner u hu)
  | some p =>
    obtain ⟨u, hu, hp⟩ := List.exists_of_findSome?_eq_some hinner
    have hne : p ≠ o := by
      rintro rfl
      obtain rfl := hreachable.singleOwner.eq_of_mem_objects ho (List.mem_of_find?_eq_some hp)
      have hnodup := hreachable.standsAt_chain.chain.nodup hreachable.outerOlder
      rw [hchain] at hnodup
      exact (List.nodup_append.mp hnodup).2.2 s hu s List.mem_cons_self rfl
    simp only [Option.some_or, Option.some.injEq, hne, false_iff]
    intro hfree
    rw [findIn?_eq_none_iff.mpr (hfree u hu)] at hp
    cases hp

/-- In the current scope nothing hides an object, for no scope is further in. -/
private theorem NamesDistinct.lookup?_of_current (h : t.NamesDistinct) (hreachable : t.Reachable)
    (hcurrent : t.current = some s) (ho : o ∈ (t.scope s).objects) :
    t.lookup? (t.name o) = some o := by
  obtain ⟨outer, hchain, _⟩ := hreachable.exists_chain_eq hcurrent
  have hfirst : t.chain = [] ++ s :: outer := hchain
  refine (h.lookup?_eq_iff hreachable hfirst ho).mpr fun u hu => ?_
  exact absurd hu List.not_mem_nil

/-- **Declaring only fresh names keeps names unique.** If a session declares objects only where
their names have been found to be fresh, then at any time no scope has two objects of the same name,
and each object is found by its name in the scope that has it. Seen from the current scope, the name
of an object on the chain means this object exactly if no scope further in has one of that name.
So an object that has just been declared is what its name means. -/
theorem names_distinct_after {limit : Nat} {steps : List Step}
    (hadmits : (initial limit).Admits steps) (hfresh : (initial limit).DeclaresFresh steps) :
    (∀ i,
      let t := (initial limit).after (steps.take i)
      (∀ s, (t.namesIn s).Nodup ∧ ∀ o ∈ (t.scope s).objects, t.findIn? s (t.name o) = some o) ∧
        ∀ inner s outer, t.chain = inner ++ s :: outer → ∀ o ∈ (t.scope s).objects,
          (t.lookup? (t.name o) = some o ↔ ∀ u ∈ inner, t.name o ∉ t.namesIn u)) ∧
      ∀ i (hi : i < steps.length) o reply,
        steps[i] = .command (.declare o) →
        (((initial limit).after (steps.take i)).step steps[i]).result = .ok reply →
        let t := (initial limit).after (steps.take (i + 1))
        t.lookup? (t.name o) = some o := by
  have hbounds := initial_inBounds limit
  have hreachable (i : Nat) : ((initial limit).after (steps.take i)).Reachable :=
    (Reachable.initial limit).after (hadmits.take i)
  have hdistinct (i : Nat) : ((initial limit).after (steps.take i)).NamesDistinct :=
    (namesDistinct_initial limit).after hbounds (hadmits.take i) (hfresh.take i)
  refine ⟨fun i => ⟨fun s => ⟨hdistinct i s, fun o => (hdistinct i).findIn?_eq⟩,
    fun inner s outer hchain o => (hdistinct i).lookup?_eq_iff (hreachable i) hchain⟩,
    fun i hi o reply hdeclare hresult => ?_⟩
  intro t
  have ht : t = (((initial limit).after (steps.take i)).step steps[i]).table :=
    after_take_succ _ hi
  rw [hdeclare] at hresult ht
  obtain ⟨e, hrefused⟩ | ⟨s, haccepted, hcurrent, _⟩ :=
    ((initial limit).after (steps.take i)).declare_cases o
  · simp only [step, perform, hrefused] at hresult
    cases hresult
  · simp only [step, perform, haccepted] at ht
    have hs := (hreachable i).inBounds.current s hcurrent
    have hlisted : o ∈ (t.scope s).objects := by
      rw [ht]
      exact mem_objects_enlist hs o
    have hinside : t.current = some s := by
      rw [ht]
      exact (current_enlist s o).trans hcurrent
    exact (hdistinct (i + 1)).lookup?_of_current (hreachable (i + 1)) hinside hlisted

/-- A variable of the program, a procedure, and in its body a variable that hides the first one. All
names are looked up before they are declared. -/
def shadowed : List Step :=
  inProgram ++
    [.command (.create .var "x"), .query (.checkFresh "x"), .command (.declare ⟨8⟩),
     .command (.create .procedure "p"), .query (.checkFresh "p"), .command (.declare ⟨9⟩),
     .command (.enter ⟨6⟩), .command (.create .var "x"), .query (.checkFresh "x"),
     .command (.declare ⟨10⟩)]

theorem names_distinct_after_shadowed :
    let t := (initial 15).after shadowed
    (initial 15).Admits shadowed ∧ (initial 15).DeclaresFresh shadowed ∧ t.chain = [⟨6⟩, ⟨5⟩] ∧
      t.namesIn ⟨5⟩ = ["x", "p"] ∧ t.namesIn ⟨6⟩ = ["x"] ∧ (t.namesIn ⟨5⟩).Nodup ∧
      t.findIn? ⟨5⟩ "x" = some ⟨8⟩ ∧ t.lookup? "p" = some ⟨9⟩ ∧ t.lookup? "x" ≠ some ⟨8⟩ ∧
      t.lookup? "x" = some ⟨10⟩ := by
  intro t
  have hadmits : (initial 15).Admits shadowed := by decide
  have hfresh : (initial 15).DeclaresFresh shadowed := by decide
  obtain ⟨hall, hdeclared⟩ := names_distinct_after hadmits hfresh
  obtain ⟨hscopes, hchain⟩ := hall shadowed.length
  rw [List.take_length] at hscopes hchain
  have houter := hchain [⟨6⟩] ⟨5⟩ [] (by decide)
  refine ⟨hadmits, hfresh, by decide, by decide, by decide, (hscopes ⟨5⟩).1,
    (hscopes ⟨5⟩).2 ⟨8⟩ (by decide), (houter ⟨9⟩ (by decide)).mpr (by decide), fun hseen => ?_,
    hdeclared 11 (by decide) ⟨10⟩ .done rfl (by decide)⟩
  exact (houter ⟨8⟩ (by decide)).mp hseen ⟨6⟩ (by decide) (by decide)

end BlockScope.Table
