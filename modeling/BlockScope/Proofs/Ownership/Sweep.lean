import BlockScope.Proofs.Ownership.Frontier

namespace BlockScope.Table

variable {t : Table} {seen pending : List (List Nat × Node)} {unreached nodes : List Node}

/-- Taking a path moves its node from the unreached ones to those that were seen. -/
private theorem perm_seen_append {p : List Nat} {n : Node} (hmem : n ∈ unreached)
    (hperm : (seen.map Prod.snd ++ unreached).Perm t.nodes) :
    ((seen ++ [(p, n)]).map Prod.snd ++ unreached.erase n).Perm t.nodes := by
  have hmoved : (n :: unreached.erase n).Perm unreached := (List.perm_cons_erase hmem).symm
  have hall := (hmoved.append_left (seen.map Prod.snd)).trans hperm
  simpa using hall

/-- A walk that comes to its end has taken every path, and no two of them to the same node. -/
theorem sweepFrom_ok {sweep : Sweep} (h : t.sweepFrom unreached nodes = .ok sweep)
    (hfrontier : t.Frontier seen pending) (hnodes : pending.map Prod.snd = nodes)
    (hperm : (seen.map Prod.snd ++ unreached).Perm t.nodes) :
    ∃ taken, t.Frontier taken [] ∧ taken.map Prod.snd = seen.map Prod.snd ++ sweep.reached ∧
      (taken.map Prod.snd ++ sweep.unreached).Perm t.nodes := by
  fun_induction sweepFrom t unreached nodes generalizing seen pending sweep with
  | case1 unreached =>
    cases h
    obtain rfl := List.map_eq_nil_iff.mp hnodes
    exact ⟨seen, hfrontier, by simp, hperm⟩
  | case2 unreached n rest hmem ih =>
    obtain ⟨⟨p, m⟩, pending, rfl, rfl, rfl⟩ := List.map_eq_cons_iff.mp hnodes
    cases hrest : t.sweepFrom (unreached.erase m) (t.owned m ++ pending.map Prod.snd) with
    | error k =>
      rw [hrest] at h
      cases h
    | ok below =>
      rw [hrest] at h
      cases h
      obtain ⟨taken, hend, htaken, hleft⟩ :=
        ih hrest hfrontier.advance (by simp [map_snd_branches])
          (perm_seen_append hmem hperm)
      exact ⟨taken, hend, by simpa using htaken, hleft⟩
  | case3 unreached n rest hmem => cases h

/-- A walk that stops has taken every path before the one at which it stops, no two of them to
the same node, but one of them to the node of that path. -/
theorem sweepFrom_error {n : Node} (h : t.sweepFrom unreached nodes = .error n)
    (hbounds : t.InBounds) (hfrontier : t.Frontier seen pending)
    (hnodes : pending.map Prod.snd = nodes)
    (hperm : (seen.map Prod.snd ++ unreached).Perm t.nodes) :
    ∃ taken p rest, t.Frontier taken ((p, n) :: rest) ∧ n ∈ taken.map Prod.snd ∧
      (taken.map Prod.snd).Nodup := by
  fun_induction sweepFrom t unreached nodes generalizing seen pending with
  | case1 unreached => cases h
  | case2 unreached m rest hmem ih =>
    obtain ⟨⟨p, m⟩, pending, rfl, rfl, rfl⟩ := List.map_eq_cons_iff.mp hnodes
    cases hrest : t.sweepFrom (unreached.erase m) (t.owned m ++ pending.map Prod.snd) with
    | ok below =>
      rw [hrest] at h
      cases h
    | error k =>
      rw [hrest] at h
      cases h
      exact ih hrest hfrontier.advance (by simp [map_snd_branches])
        (perm_seen_append hmem hperm)
  | case3 unreached m rest hmem =>
    cases h
    obtain ⟨⟨p, m⟩, pending, rfl, rfl, rfl⟩ := List.map_eq_cons_iff.mp hnodes
    have hpath : t.PathTo p m := hfrontier.pathTo_pending (p, m) List.mem_cons_self
    have hseen : m ∈ seen.map Prod.snd ++ unreached :=
      hperm.mem_iff.mpr (hpath.mem_nodes hbounds)
    refine ⟨seen, p, pending, hfrontier, (List.mem_append.mp hseen).resolve_right hmem, ?_⟩
    exact (List.nodup_append.mp (hperm.nodup_iff.mpr t.nodup_nodes)).1

/-- What a walk through everything finds: all nodes that a path leads to, each once. -/
theorem sweep_ok {sweep : Sweep} (h : t.sweep = .ok sweep) :
    t.IsForest ∧ (sweep.reached ++ sweep.unreached).Perm t.nodes ∧
      ∀ n, n ∈ sweep.reached ↔ t.Reached n := by
  obtain ⟨taken, hend, htaken, hperm⟩ :=
    sweepFrom_ok h (Frontier.start t) (map_snd_branches [] t.roots) (by simp)
  have htaken : taken.map Prod.snd = sweep.reached := by simpa using htaken
  have hcovers (p : List Nat) (n : Node) (hp : t.PathTo p n) : (p, n) ∈ taken := by
    simpa using hend.covers p n hp
  rw [htaken] at hperm
  have hnodup : (taken.map Prod.snd).Nodup := by
    rw [htaken]
    exact (List.nodup_append.mp (hperm.nodup_iff.mpr t.nodup_nodes)).1
  refine ⟨fun n p q hp hq => ?_, hperm, fun n => ⟨fun hn => ?_, ?_⟩⟩
  · have hsame := List.inj_on_of_nodup_map hnodup (hcovers p n hp) (hcovers q n hq) rfl
    exact congrArg Prod.fst hsame
  · rw [← htaken] at hn
    obtain ⟨x, hx, rfl⟩ := List.mem_map.mp hn
    exact ⟨x.1, hend.pathTo_seen x hx⟩
  · rintro ⟨p, hp⟩
    rw [← htaken]
    exact List.mem_map.mpr ⟨(p, n), hcovers p n hp, rfl⟩

/-- A walk through everything stops at the node at which a path arrives for the second time,
before any other path does so: it has taken all paths before that one, no two to the same node. -/
theorem sweep_error (hbounds : t.InBounds) {n : Node} (h : t.sweep = .error n) :
    ∃ p, t.FirstRevisit p n := by
  obtain ⟨taken, p, rest, hstop, hmem, hnodup⟩ :=
    sweepFrom_error h hbounds (Frontier.start t) (map_snd_branches [] t.roots) (by simp)
  obtain ⟨⟨q, m⟩, hq, rfl⟩ := List.mem_map.mp hmem
  have hearlier : q < p := hstop.behind (q, m) hq (p, m) List.mem_cons_self
  refine ⟨p, ⟨hstop.pathTo_pending (p, m) List.mem_cons_self, q, hearlier,
    hstop.pathTo_seen (q, m) hq⟩, ?_⟩
  rintro r k ⟨hr, r', hr', hk⟩ hlt
  have hsame := List.inj_on_of_nodup_map hnodup (hstop.mem_seen_of_lt hr hlt)
    (hstop.mem_seen_of_lt hk (List.lt_trans hr' hlt)) rfl
  obtain rfl := congrArg Prod.fst hsame
  exact List.lt_irrefl _ hr'

theorem FirstRevisit.not_isForest {p : List Nat} {n : Node} (h : t.FirstRevisit p n) :
    ¬ t.IsForest := by
  intro hforest
  obtain ⟨⟨hp, q, hlt, hq⟩, _⟩ := h
  rw [hforest n q p hq hp] at hlt
  exact List.lt_irrefl _ hlt

theorem FirstRevisit.unique {p q : List Nat} {m n : Node} (hm : t.FirstRevisit p m)
    (hn : t.FirstRevisit q n) : m = n := by
  have hsame : p = q := List.le_antisymm (hm.2 q n hn.1) (hn.2 p m hm.1)
  rw [← hsame] at hn
  exact hm.1.1.unique hn.1.1

end BlockScope.Table
