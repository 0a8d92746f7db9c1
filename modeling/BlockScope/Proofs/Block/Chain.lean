import Mathlib.Data.List.Nodup
import Mathlib.Data.List.Perm.Subperm
import BlockScope.Proofs.Session.Continuity
import BlockScope.Proofs.Session.Reachable
import BlockScope.Table.Lookup

namespace BlockScope.Table

/-- From the scope `start` outward, up to the end, there are exactly the given scopes. -/
def ChainFrom (t : Table) : (start : Option ScopeId) → List ScopeId → Prop
  | start, [] => start = none
  | start, s :: rest => start = some s ∧ t.ChainFrom (t.scope s).outer rest

/-- The scope around a scope is older. Links outward cannot run in circles. -/
def OuterOlder (t : Table) : Prop :=
  ∀ s u, (t.scope s).outer = some u → u.index < s.index

variable {t t' : Table} {start : Option ScopeId} {chain : List ScopeId}

private theorem outerOlder_initial (limit : Nat) : (initial limit).OuterOlder := by
  rintro ⟨i⟩ u houter
  by_cases hi : i < 5
  · interval_cases i <;> simp [scope, scopes_initial] at houter
  · have hnone : ¬ (initial limit).HasScope ⟨i⟩ := hi
    rw [scope_of_not_hasScope hnone] at houter
    cases houter

/-- A new scope is put around no other, and the scope around it is one that the table has. -/
theorem OuterOlder.transition (hbounds : t.InBounds) (hstep : t.Transition t')
    (h : t.OuterOlder) : t'.OuterOlder := by
  intro s u houter
  cases hstep with
  | @create b name hfits hlength hfirst =>
    rw [scope_allocate] at houter
    by_cases hnew : b.kind.hasBody ∧ s = t.nextScope
    · rw [if_pos hnew] at houter
      have hcurrent : t.current = some u := by
        by_cases hkind : b.kind = .program
        · simp [hkind] at houter
        · simpa [hkind] using houter
      rw [hnew.2]
      exact hbounds.current u hcurrent
    · rw [if_neg hnew] at houter
      exact h s u houter
  | createScope howner hexists =>
    rw [scope_createScope] at houter
    by_cases hnew : s = t.nextScope
    · rw [if_pos hnew] at houter
      rw [hnew]
      exact hexists u houter
    · rw [if_neg hnew] at houter
      exact h s u houter
  | assign ho hkind => exact h s u houter
  | enter hs hopen hcurrent => exact h s u houter
  | exit hcurrent => exact h s u houter
  | declare hcurrent ho hfresh =>
    rw [outer_enlist] at houter
    exact h s u houter

theorem Reachable.outerOlder (h : t.Reachable) : t.OuterOlder :=
  h.invariant outerOlder_initial OuterOlder.transition

namespace ChainFrom

theorem head?_eq (h : t.ChainFrom start chain) : chain.head? = start := by
  cases chain with
  | nil => exact h.symm
  | cons s rest => exact h.1.symm

/-- The scopes of a chain get older from one to the next. -/
private theorem pairwise_lt (h : t.ChainFrom start chain) (holder : t.OuterOlder) :
    chain.Pairwise fun s u => u.index < s.index := by
  induction chain generalizing start with
  | nil => exact .nil
  | cons s rest ih =>
    have hrest := ih h.2
    refine List.pairwise_cons.mpr ⟨fun u hu => ?_, hrest⟩
    cases rest with
    | nil => cases hu
    | cons v rest =>
      have hv : v.index < s.index := holder s v h.2.1
      obtain rfl | hu := List.mem_cons.mp hu
      · exact hv
      · exact (List.rel_of_pairwise_cons hrest hu).trans hv

theorem nodup (h : t.ChainFrom start chain) (holder : t.OuterOlder) : chain.Nodup := by
  refine (h.pairwise_lt holder).imp fun hlt heq => ?_
  rw [heq] at hlt
  exact Nat.lt_irrefl _ hlt

theorem hasScope (h : t.ChainFrom start chain) (hbounds : t.InBounds)
    (hstart : ∀ s ∈ start, t.HasScope s) : ∀ s ∈ chain, t.HasScope s := by
  induction chain generalizing start with
  | nil => nofun
  | cons s rest ih =>
    have hs := hstart s h.1
    intro u hu
    obtain rfl | hu := List.mem_cons.mp hu
    · exact hs
    · exact ih h.2 (hbounds.scope s hs).outer u hu

/-- A chain is no longer than the table has scopes, since none comes twice. -/
theorem length_le (h : t.ChainFrom start chain) (holder : t.OuterOlder) (hbounds : t.InBounds)
    (hstart : ∀ s ∈ start, t.HasScope s) : chain.length ≤ t.scopes.size := by
  have hindices : (chain.map ScopeId.index).Nodup :=
    (h.nodup holder).map fun s u heq => ScopeId.eq_iff.mpr heq
  have hsub : chain.map ScopeId.index ⊆ List.range t.scopes.size := by
    intro i hi
    obtain ⟨s, hs, rfl⟩ := List.mem_map.mp hi
    exact List.mem_range.mpr (h.hasScope hbounds hstart s hs)
  have hle := (List.subperm_of_subset hindices hsub).length_le
  rwa [List.length_map, List.length_range] at hle

private theorem outward_eq {length : Nat} (h : t.ChainFrom start chain)
    (hlength : chain.length ≤ length) :
    t.outward length start = chain := by
  induction chain generalizing start length with
  | nil =>
    obtain rfl : start = none := h
    cases length <;> rfl
  | cons s rest ih =>
    obtain ⟨rfl, hrest⟩ := h
    cases length with
    | zero => simp at hlength
    | succ length =>
      have htail := ih hrest (by simpa using hlength)
      rw [outward, htail]

/-- Sessions do not change a chain of scopes that are there already. -/
theorem continues (h : t.ChainFrom start chain) (hlater : t.Continues t')
    (hchain : ∀ s ∈ chain, t.HasScope s) : t'.ChainFrom start chain := by
  induction chain generalizing start with
  | nil => exact h
  | cons s rest ih =>
    refine ⟨h.1, ?_⟩
    rw [hlater.outer (hchain s List.mem_cons_self)]
    exact ih h.2 fun u hu => hchain u (List.mem_cons_of_mem s hu)

/-- The links of the scopes do not depend on the pointer to the current one. -/
theorem moveTo_iff {current : Option ScopeId} :
    { t with current }.ChainFrom start chain ↔ t.ChainFrom start chain := by
  induction chain generalizing start with
  | nil => exact Iff.rfl
  | cons s rest ih => exact and_congr_right fun _ => ih

end ChainFrom

/-- The chain of a table is its chain of scopes from the current one outward. -/
theorem chain_eq (h : t.ChainFrom t.current chain) (holder : t.OuterOlder)
    (hbounds : t.InBounds) : t.chain = chain :=
  h.outward_eq (h.length_le holder hbounds hbounds.current)

end BlockScope.Table
