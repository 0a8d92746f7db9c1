import BlockScope.Proofs.Block.Balanced
import BlockScope.Proofs.Ownership.Forest
import BlockScope.Table.Lookup

namespace BlockScope.Table

/-- The search for a name from the scope `start` outward, one scope after the other, with `find`
looking through the list of each. Outside of all scopes the predeclared routines are left. A search
that never came to an end would have no answer. -/
inductive Resolves (t : Table) (find : List ObjectId → Option ObjectId) :
    (start : Option ScopeId) → (found : Option ObjectId) → Prop
  | here {s : ScopeId} {o : ObjectId} (h : find (t.scope s).objects = some o) :
      Resolves t find (some s) (some o)
  | outward {s : ScopeId} {found : Option ObjectId} (h : find (t.scope s).objects = none)
      (hrest : Resolves t find (t.scope s).outer found) : Resolves t find (some s) found
  | predeclared : Resolves t find none (find t.globals)

variable {t : Table} {start : Option ScopeId} {chain stack : List ScopeId} {name : String}
  {o : ObjectId} {s : ScopeId}

/-- Where the links outward come to an end, so does the search, and what it finds is what comes
first on the chain. -/
theorem ChainFrom.resolves_iff (h : t.ChainFrom start chain)
    (find : List ObjectId → Option ObjectId) (found : Option ObjectId) :
    t.Resolves find start found ↔
      found = (chain.findSome? fun s => find (t.scope s).objects).or (find t.globals) := by
  induction chain generalizing start with
  | nil =>
    obtain rfl : start = none := h
    constructor
    · intro hfound
      cases hfound
      rfl
    · rintro rfl
      exact .predeclared
  | cons s rest ih =>
    obtain ⟨rfl, hrest⟩ := h
    rw [List.findSome?_cons]
    cases hhere : find (t.scope s).objects with
    | some o =>
      constructor
      · intro hfound
        cases hfound with
        | here h =>
          rw [hhere] at h
          exact h.symm
        | outward h _ =>
          rw [hhere] at h
          cases h
      · rintro rfl
        exact .here hhere
    | none =>
      rw [← ih hrest]
      constructor
      · intro hfound
        cases hfound with
        | here h =>
          rw [hhere] at h
          cases h
        | outward _ hfound => exact hfound
      · exact .outward hhere

/-- A name means the first object that has it, along the chain and then among the predeclared
routines. -/
theorem lookup?_eq_find? (t : Table) (name : String) :
    t.lookup? name = ((t.chain.flatMap fun s => (t.scope s).objects) ++ t.globals).find?
      fun o => t.name o == name := by
  rw [List.find?_append, List.find?_flatMap]
  rfl

theorem mem_of_lookup? (h : t.lookup? name = some o) :
    (∃ s ∈ t.chain, o ∈ (t.scope s).objects) ∨ o ∈ t.globals := by
  rw [lookup?_eq_find?] at h
  obtain hlisted | hglobal := List.mem_append.mp (List.mem_of_find?_eq_some h)
  · exact .inl (List.mem_flatMap.mp hlisted)
  · exact .inr hglobal

/-- The chain of a reachable table is the whole chain of its scopes, and all of them are open. -/
theorem Reachable.standsAt_chain (h : t.Reachable) : t.StandsAt t.chain := by
  obtain ⟨stack, hstands⟩ := h.standsAt
  rwa [chain_eq hstands.chain h.outerOlder h.inBounds]

/-- The chain begins with the current scope, which is not met again further out. -/
theorem Reachable.exists_chain_eq (h : t.Reachable) (hcurrent : t.current = some s) :
    ∃ outer, t.chain = s :: outer ∧ s ∉ outer := by
  have hstands := h.standsAt_chain
  have hhead := hstands.head?_eq.trans hcurrent
  obtain ⟨outer, hchain⟩ := List.head?_eq_some_iff.mp hhead
  have hnodup := hstands.chain.nodup h.outerOlder
  rw [hchain] at hnodup
  exact ⟨outer, hchain, (List.nodup_cons.mp hnodup).1⟩

/-- A name never means anything in the body of a predeclared routine. -/
theorem Reachable.not_mem_objects_of_lookup? (h : t.Reachable) (hfound : t.lookup? name = some o)
    (hsealed : (t.scope s).owner ∈ t.globals) : o ∉ (t.scope s).objects := by
  intro hlisted
  obtain ⟨u, hu, hmem⟩ | hglobal := mem_of_lookup? hfound
  · obtain rfl := h.singleOwner.eq_of_mem_objects hlisted hmem
    exact h.standsAt_chain.isOpen s hu hsealed
  · exact timesDeclared_eq_zero_iff.mp (h.singleOwner.timesDeclared_root (.inr hglobal)) s hlisted

theorem name_of_lookup? (h : t.lookup? name = some o) : t.name o = name := by
  rw [lookup?_eq_find?] at h
  have hnamed := List.find?_some h
  exact eq_of_beq hnamed

theorem resolve_of_none (h : t.lookup? name = none) (role : Role) :
    t.resolve role name = .error (.undeclared role name) := by
  rw [resolve, h]

theorem resolve_of_some (h : t.lookup? name = some o) (role : Role) :
    t.resolve role name = .ok o := by
  rw [resolve, h]

theorem checkLValue_of_none (h : t.lookup? name = none) :
    t.checkLValue name = .error (.undeclared .identifier name) := by
  rw [checkLValue, resolve_of_none h]
  rfl

theorem checkLValue_of_some (h : t.lookup? name = some o) : t.checkLValue name =
    if t.isAssignable o then .ok o else .error (.invalidKind name .lvalue) := by
  rw [checkLValue, resolve_of_some h]
  rfl

theorem checkLValue_eq_ok_iff :
    t.checkLValue name = .ok o ↔ t.lookup? name = some o ∧ t.isAssignable o := by
  cases hlookup : t.lookup? name with
  | none => simp [checkLValue_of_none hlookup]
  | some p =>
    rw [checkLValue_of_some hlookup]
    by_cases hassignable : t.isAssignable p
    · rw [if_pos hassignable, Except.ok.injEq, Option.some.injEq]
      exact ⟨fun heq => ⟨heq, heq ▸ hassignable⟩, And.left⟩
    · rw [if_neg hassignable, Option.some.injEq]
      constructor
      · nofun
      · rintro ⟨rfl, h⟩
        exact absurd h hassignable

theorem isAssignable_iff : t.isAssignable o ↔
    (t.object o).kind = .var ∨ (t.object o).kind = .parameter ∨
      (t.object o).kind = .function ∧ ∃ s, t.current = some s ∧ (t.scope s).owner = o := by
  unfold isAssignable
  cases (t.object o).kind <;> simp [Option.any_eq_true]

/-- Of the routines, the one to assign to is the function whose body is current. -/
theorem current_of_isAssignable (h : t.isAssignable o) (hroutine : (t.object o).kind.isRoutine) :
    ∃ s, t.current = some s ∧ (t.scope s).owner = o := by
  obtain hkind | hkind | ⟨_, hcurrent⟩ := isAssignable_iff.mp h
  · rw [hkind] at hroutine
    cases hroutine
  · rw [hkind] at hroutine
    cases hroutine
  · exact hcurrent

end BlockScope.Table
