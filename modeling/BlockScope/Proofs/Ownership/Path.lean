import Mathlib.Data.List.Induction
import Mathlib.Data.List.Nodup
import BlockScope.Release
import BlockScope.Proofs.Session.Bounds

namespace BlockScope.Table

/-- The ownership path `p` leads to the node `n`. Its first number picks a root, and each
further number picks one of the nodes that the node before it owns. A node that is listed
twice is at the end of two paths. -/
inductive PathTo (t : Table) : List Nat → Node → Prop
  | root {i : Nat} {n : Node} (hroot : t.roots[i]? = some n) : PathTo t [i] n
  | own {p : List Nat} {m n : Node} {i : Nat} (hp : PathTo t p m)
      (howned : (t.owned m)[i]? = some n) : PathTo t (p ++ [i]) n

/-- Some ownership path leads to the node. -/
def Reached (t : Table) (n : Node) : Prop :=
  ∃ p, t.PathTo p n

/-- Ownership is a forest: no two paths lead to the same node. -/
def IsForest (t : Table) : Prop :=
  ∀ n p q, t.PathTo p n → t.PathTo q n → p = q

/-- The path `p` arrives at a node where a path before it has arrived already. Lists of numbers
are compared from the left, and a list comes before its continuations: this is the order in
which a walk in preorder takes the paths. -/
def Revisits (t : Table) (p : List Nat) (n : Node) : Prop :=
  t.PathTo p n ∧ ∃ q < p, t.PathTo q n

/-- The first path in preorder that arrives at a node for the second time. -/
def FirstRevisit (t : Table) (p : List Nat) (n : Node) : Prop :=
  t.Revisits p n ∧ ∀ q m, t.Revisits q m → ¬ q < p

variable {t : Table} {p q : List Nat} {m n : Node}

theorem PathTo.ne_nil (h : t.PathTo p n) : p ≠ [] := by
  cases h <;> simp

/-- The last step of a path starts at a root or at the end of a shorter path. -/
theorem pathTo_snoc_iff {i : Nat} : t.PathTo (p ++ [i]) n ↔
    (p = [] ∧ t.roots[i]? = some n) ∨ ∃ m, t.PathTo p m ∧ (t.owned m)[i]? = some n := by
  constructor
  · intro h
    generalize hq : p ++ [i] = q at h
    cases h with
    | root hroot =>
      obtain ⟨rfl, rfl⟩ := List.append_singleton_inj.mp (hq.trans (List.nil_append _).symm)
      exact .inl ⟨rfl, hroot⟩
    | own hp howned =>
      obtain ⟨rfl, rfl⟩ := List.append_singleton_inj.mp hq
      exact .inr ⟨_, hp, howned⟩
  · rintro (⟨rfl, hroot⟩ | ⟨m, hp, howned⟩)
    · exact .root hroot
    · exact .own hp howned

/-- A path leads to one node only. -/
theorem PathTo.unique (hm : t.PathTo p m) (hn : t.PathTo p n) : m = n := by
  induction hm generalizing n with
  | root hroot =>
    rw [← List.nil_append [_]] at hn
    obtain ⟨_, hn⟩ | ⟨_, hnil, _⟩ := pathTo_snoc_iff.mp hn
    · exact Option.some.inj (hroot.symm.trans hn)
    · exact absurd rfl hnil.ne_nil
  | own hp howned ih =>
    obtain ⟨rfl, _⟩ | ⟨_, hp', hn⟩ := pathTo_snoc_iff.mp hn
    · exact absurd rfl hp.ne_nil
    · rw [← ih hp'] at hn
      exact Option.some.inj (howned.symm.trans hn)

/-- Every beginning of a path is a path. -/
theorem PathTo.of_append {r : List Nat} (h : t.PathTo (p ++ r) n) (hp : p ≠ []) :
    ∃ m, t.PathTo p m := by
  induction r using List.reverseRecOn generalizing n with
  | nil => exact ⟨n, by simpa using h⟩
  | append_singleton r i ih =>
    rw [← List.append_assoc] at h
    obtain ⟨hnil, _⟩ | ⟨m, hm, _⟩ := pathTo_snoc_iff.mp h
    · exact absurd (List.append_eq_nil_iff.mp hnil).1 hp
    · exact ih hm

/-- A path that goes on from the end of another goes on to a node that is owned there. -/
theorem PathTo.append_cases {r : List Nat} (h : t.PathTo (p ++ r) m) (hp : t.PathTo p n) :
    (r = [] ∧ m = n) ∨ ∃ i k, (t.owned n)[i]? = some k ∧ p ++ [i] <+: p ++ r := by
  cases r with
  | nil =>
    rw [List.append_nil] at h
    exact .inl ⟨rfl, h.unique hp⟩
  | cons i r =>
    have hsplit : p ++ i :: r = (p ++ [i]) ++ r := by simp
    rw [hsplit] at h
    obtain ⟨k, hk⟩ := h.of_append (by simp)
    obtain ⟨hnil, _⟩ | ⟨n', hp', howned⟩ := pathTo_snoc_iff.mp hk
    · exact absurd hnil hp.ne_nil
    · rw [hp'.unique hp] at howned
      exact .inr ⟨i, k, howned, r, hsplit.symm⟩

theorem Reached.own (h : t.Reached m) (howned : n ∈ t.owned m) : t.Reached n := by
  obtain ⟨p, hp⟩ := h
  obtain ⟨i, hi⟩ := List.mem_iff_getElem?.mp howned
  exact ⟨p ++ [i], .own hp hi⟩

theorem Reached.root (h : n ∈ t.roots) : t.Reached n := by
  obtain ⟨i, hi⟩ := List.mem_iff_getElem?.mp h
  exact ⟨[i], .root hi⟩

theorem mem_nodes_object {o : ObjectId} : Node.object o ∈ t.nodes ↔ t.HasObject o := by
  simp [nodes, HasObject, ObjectId.eq_iff]

theorem mem_nodes_scope {s : ScopeId} : Node.scope s ∈ t.nodes ↔ t.HasScope s := by
  simp [nodes, HasScope, ScopeId.eq_iff]

theorem nodup_nodes (t : Table) : t.nodes.Nodup := by
  unfold nodes
  rw [List.nodup_append]
  refine ⟨?_, ?_, by simp⟩
  · exact List.Nodup.map (fun i j h => by simpa using h) List.nodup_range
  · exact List.Nodup.map (fun i j h => by simpa using h) List.nodup_range

/-- Without dangling handles, ownership does not lead out of the table. -/
theorem PathTo.mem_nodes (h : t.PathTo p n) (hbounds : t.InBounds) : n ∈ t.nodes := by
  induction h with
  | root hroot =>
    obtain ⟨o, ho, rfl⟩ := List.mem_map.mp (List.mem_of_getElem? hroot)
    rw [mem_nodes_object]
    obtain ho | ho := List.mem_append.mp ho
    · exact hbounds.program o (Option.mem_toList.mp ho)
    · exact hbounds.globals o ho
  | @own p m n i hp howned ih =>
    have hmem := List.mem_of_getElem? howned
    cases m with
    | object o =>
      obtain ⟨s, hs, rfl⟩ := Option.map_eq_some_iff.mp (Option.mem_toList.mp hmem)
      exact mem_nodes_scope.mpr (hbounds.body hs)
    | scope s =>
      obtain ⟨o, ho, rfl⟩ := List.mem_map.mp hmem
      exact mem_nodes_object.mpr ((hbounds.scope s (mem_nodes_scope.mp ih)).objects o ho)

end BlockScope.Table
