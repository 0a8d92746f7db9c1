import BlockScope.Release
import BlockScope.Proofs.Ownership.Path

namespace BlockScope

/-- `p` turns off to the left of `q`: where they part, `p` has the smaller number. Neither is a
continuation of the other. -/
def LeftOf (p q : List Nat) : Prop :=
  ∃ common i j p' q', i < j ∧ p = common ++ i :: p' ∧ q = common ++ j :: q'

private theorem LeftOf.lt {p q : List Nat} (h : LeftOf p q) : p < q := by
  obtain ⟨common, i, j, p', q', hij, rfl, rfl⟩ := h
  exact List.append_left_lt (List.Lex.rel hij)

theorem LeftOf.append {p q : List Nat} (h : LeftOf p q) (p' q' : List Nat) :
    LeftOf (p ++ p') (q ++ q') := by
  obtain ⟨common, i, j, p₁, q₁, hij, rfl, rfl⟩ := h
  exact ⟨common, i, j, p₁ ++ p', q₁ ++ q', hij, by simp, by simp⟩

private theorem leftOf_snoc (p : List Nat) {i j : Nat} (hij : i < j) :
    LeftOf (p ++ [i]) (p ++ [j]) :=
  ⟨p, i, j, [], [], hij, rfl, rfl⟩

private theorem lt_snoc (p : List Nat) (i : Nat) : p < p ++ [i] := by
  have hlt : p ++ [] < p ++ [i] := List.append_left_lt (List.nil_lt_cons i [])
  rwa [List.append_nil] at hlt

private theorem not_append_lt (p r : List Nat) : ¬ p ++ r < p := by
  induction p with
  | nil => exact List.not_lt_nil _
  | cons i p ih => simpa using ih

/-- The nodes of a list, each with the path to it if the list hangs below the path `p`. -/
def branches (p : List Nat) (nodes : List Node) : List (List Nat × Node) :=
  nodes.mapIdx fun i n => (p ++ [i], n)

private theorem mem_branches {p q : List Nat} {nodes : List Node} {n : Node} :
    (q, n) ∈ branches p nodes ↔ ∃ i, nodes[i]? = some n ∧ q = p ++ [i] := by
  simp only [branches, List.mem_mapIdx, Prod.mk.injEq, List.getElem?_eq_some_iff]
  constructor
  · rintro ⟨i, hi, rfl, rfl⟩
    exact ⟨i, ⟨hi, rfl⟩, rfl⟩
  · rintro ⟨i, ⟨hi, rfl⟩, rfl⟩
    exact ⟨i, hi, rfl, rfl⟩

theorem map_snd_branches (p : List Nat) (nodes : List Node) :
    (branches p nodes).map Prod.snd = nodes := by
  apply List.ext_getElem
  · simp [branches]
  · intro i hi hi'
    simp [branches]

private theorem pairwise_branches (p : List Nat) (nodes : List Node) :
    (branches p nodes).Pairwise fun x y => LeftOf x.1 y.1 := by
  rw [List.pairwise_iff_getElem]
  intro i j hi hj hij
  simpa [branches] using leftOf_snoc p hij

namespace Table

/-- Where a walk in preorder stands: `seen` are the paths it has taken and `pending` those at
which it has yet to look, each with its node. Every path of the table has been taken or
continues a pending one, and all that is pending comes after all that was taken. -/
structure Frontier (t : Table) (seen pending : List (List Nat × Node)) : Prop where
  pathTo_seen : ∀ x ∈ seen, t.PathTo x.1 x.2
  pathTo_pending : ∀ x ∈ pending, t.PathTo x.1 x.2
  ordered : pending.Pairwise fun x y => LeftOf x.1 y.1
  behind : ∀ x ∈ seen, ∀ y ∈ pending, x.1 < y.1
  covers : ∀ p n, t.PathTo p n → (p, n) ∈ seen ∨ ∃ y ∈ pending, y.1 <+: p

variable {t : Table} {seen pending rest : List (List Nat × Node)} {p : List Nat} {n : Node}

/-- At the start nothing has been taken and the roots are pending. -/
theorem Frontier.start (t : Table) : t.Frontier [] (branches [] t.roots) where
  pathTo_seen := by simp
  pathTo_pending := by
    rintro ⟨q, m⟩ hmem
    obtain ⟨i, hroot, rfl⟩ := mem_branches.mp hmem
    exact .root hroot
  ordered := pairwise_branches [] t.roots
  behind := by simp
  covers := by
    intro q m hq
    right
    induction hq with
    | root hroot =>
      exact ⟨([_], _), mem_branches.mpr ⟨_, hroot, rfl⟩, List.prefix_refl _⟩
    | own _ _ ih =>
      obtain ⟨y, hy, hprefix⟩ := ih
      exact ⟨y, hy, hprefix.trans (List.prefix_append _ _)⟩

/-- Taking the first pending path puts its branches in its place. -/
theorem Frontier.advance (h : t.Frontier seen ((p, n) :: rest)) :
    t.Frontier (seen ++ [(p, n)]) (branches p (t.owned n) ++ rest) := by
  have hp : t.PathTo p n := h.pathTo_pending (p, n) List.mem_cons_self
  obtain ⟨hleft, hordered⟩ := List.pairwise_cons.mp h.ordered
  refine ⟨?_, ?_, ?_, ?_, ?_⟩
  · intro x hx
    obtain hx | hx := List.mem_append.mp hx
    · exact h.pathTo_seen x hx
    · rw [List.mem_singleton.mp hx]
      exact hp
  · rintro ⟨q, m⟩ hy
    obtain hy | hy := List.mem_append.mp hy
    · obtain ⟨i, howned, rfl⟩ := mem_branches.mp hy
      exact .own hp howned
    · exact h.pathTo_pending (q, m) (List.mem_cons_of_mem _ hy)
  · rw [List.pairwise_append]
    refine ⟨pairwise_branches p _, hordered, ?_⟩
    rintro ⟨q, m⟩ hx y hy
    obtain ⟨i, _, rfl⟩ := mem_branches.mp hx
    have hextended := (hleft y hy).append [i] []
    rwa [List.append_nil] at hextended
  · intro x hx y hy
    have hpy : p < y.1 := by
      obtain hy | hy := List.mem_append.mp hy
      · have hbranch : (y.1, y.2) ∈ branches p (t.owned n) := hy
        obtain ⟨i, _, hq⟩ := mem_branches.mp hbranch
        rw [hq]
        exact lt_snoc p i
      · exact (hleft y hy).lt
    obtain hx | hx := List.mem_append.mp hx
    · exact List.lt_trans (h.behind x hx (p, n) List.mem_cons_self) hpy
    · rw [List.mem_singleton.mp hx]
      exact hpy
  · intro q m hq
    obtain hseen | ⟨y, hy, hprefix⟩ := h.covers q m hq
    · exact .inl (List.mem_append_left _ hseen)
    · obtain rfl | hy := List.mem_cons.mp hy
      · obtain ⟨r, rfl⟩ := hprefix
        obtain ⟨rfl, rfl⟩ | ⟨i, k, howned, hbranch⟩ := hq.append_cases hp
        · exact .inl (by simp)
        · have hmem : (p ++ [i], k) ∈ branches p (t.owned n) :=
            mem_branches.mpr ⟨i, howned, rfl⟩
          exact .inr ⟨(p ++ [i], k), List.mem_append_left _ hmem, hbranch⟩
      · exact .inr ⟨y, List.mem_append_right _ hy, hprefix⟩

/-- Every path before the first pending one has been taken. -/
theorem Frontier.mem_seen_of_lt (h : t.Frontier seen ((p, n) :: rest)) {q : List Nat} {m : Node}
    (hq : t.PathTo q m) (hlt : q < p) : (q, m) ∈ seen := by
  obtain hseen | ⟨y, hy, r, rfl⟩ := h.covers q m hq
  · exact hseen
  · obtain rfl | hy := List.mem_cons.mp hy
    · exact absurd hlt (not_append_lt p r)
    · have hleft := ((List.pairwise_cons.mp h.ordered).1 y hy).append [] r
      rw [List.append_nil] at hleft
      exact absurd hlt (List.lt_asymm hleft.lt)

end Table

end BlockScope
