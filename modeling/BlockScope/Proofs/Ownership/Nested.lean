import BlockScope.Proofs.Block.Chain
import BlockScope.Proofs.Ownership.Orphan
import BlockScope.Proofs.Session.Discipline

namespace BlockScope.Table

/-- Scopes are nested as ownership nests them: each is the body of its owner and lies in the
scope that lists its owner, or is outermost because its owner is a root. Nothing lies in the
bodies of the predeclared routines. -/
structure Nested (t : Table) : Prop where
  body_owner : ∀ s, t.HasScope s → (t.object (t.scope s).owner).body? = some s
  outer_body : ∀ s o u, o ∈ (t.scope s).objects → (t.object o).body? = some u →
    (t.scope u).outer = some s
  outermost : ∀ s, t.HasScope s → (t.scope s).outer = none →
    .object (t.scope s).owner ∈ t.roots
  enclosing : ∀ s u, (t.scope s).outer = some u → (t.scope u).owner ∉ t.globals
  current : ∀ s, t.current = some s → (t.scope s).owner ∉ t.globals

variable {t t' : Table} {o : ObjectId} {s u : ScopeId}

private theorem nested_initial (limit : Nat) : (initial limit).Nested := by
  refine ⟨?_, ?_, ?_, ?_, by simp [current_initial]⟩
  · rintro ⟨i⟩ hi
    have hlt : i < 5 := hi
    interval_cases i <;> simp [scope, scopes_initial, object, objects_initial, Object.body?,
      Attributes.body?]
  · rintro ⟨i⟩ o u ho hbody
    have hlt : i < 5 := hasScope_of_mem_objects ho
    interval_cases i <;> simp [scope, scopes_initial] at ho <;> subst ho <;>
      simp [object, objects_initial, Object.body?, Attributes.body?] at hbody
  · rintro ⟨i⟩ hi _
    have hlt : i < 5 := hi
    rw [mem_roots_object, globals_initial]
    interval_cases i <;> simp [scope, scopes_initial]
  · rintro ⟨i⟩ u houter
    have hlt : i < 5 := hasScope_of_outer houter
    interval_cases i <;> simp [scope, scopes_initial] at houter

/-- A root stays a root. -/
private theorem mem_roots_allocate {b : Blueprint} {name : String}
    (hfirst : b.kind = .program → t.program = none) (ho : .object o ∈ t.roots) :
    .object o ∈ (t.allocate b name).roots := by
  rw [mem_roots_object] at ho ⊢
  refine ho.imp_left fun hprogram => ?_
  have hkind : b.kind ≠ .program := fun hkind => by
    rw [hfirst hkind] at hprogram
    cases hprogram
  exact (if_neg hkind).trans hprogram

/-- Only the current scope gets a new scope inside. -/
private theorem outer_allocate_cases {b : Blueprint} {name : String}
    (h : ((t.allocate b name).scope s).outer = some u) :
    (t.scope s).outer = some u ∨ t.current = some u := by
  rw [scope_allocate] at h
  split at h
  · by_cases hkind : b.kind = .program
    · simp [hkind] at h
    · exact .inr ((if_neg hkind).symm.trans h)
  · exact .inl h

/-- A new body lies in the current scope, or it is the body of the program. -/
theorem Nested.allocate (h : t.Nested) (hbounds : t.InBounds) {b : Blueprint} (name : String)
    (hfirst : b.kind = .program → t.program = none)
    (hinside : b.kind ≠ .program → t.current ≠ none) : (t.allocate b name).Nested := by
  refine ⟨fun s hs => ?_, fun s o u ho hbody => ?_, fun s hs houter => ?_, fun s u houter => ?_,
    fun s hs => ?_⟩
  · obtain hold | ⟨hkind, rfl⟩ := hasScope_allocate.mp hs
    · rw [hold.scope_allocate, (hbounds.scope s hold).owner.object_allocate]
      exact h.body_owner s hold
    · rw [scope_allocate, if_pos ⟨hkind, rfl⟩, object_allocate, if_pos rfl]
      exact (t.body?_newAttributes b).trans (if_pos hkind)
  · have hlisted : o ∈ (t.scope s).objects := by
      rw [scope_allocate] at ho
      split at ho
      · cases ho
      · exact ho
    have ho := (hbounds.scope s (hasScope_of_mem_objects hlisted)).objects o hlisted
    rw [ho.object_allocate] at hbody
    rw [(hbounds.body hbody).scope_allocate]
    exact h.outer_body s o u hlisted hbody
  · rw [scope_allocate] at houter ⊢
    split at houter
    · rename_i hnew
      have hkind : b.kind = .program := by
        by_contra hkind
        exact hinside hkind ((if_neg hkind).symm.trans houter)
      rw [if_pos hnew, mem_roots_object]
      exact .inl (if_pos hkind)
    · rename_i hold
      rw [if_neg hold]
      exact mem_roots_allocate hfirst
        (h.outermost s ((hasScope_allocate.mp hs).resolve_right hold) houter)
  · obtain houter | hcurrent := outer_allocate_cases houter
    · have hu := (hbounds.scope s (hasScope_of_outer houter)).outer u houter
      rw [hu.scope_allocate]
      exact h.enclosing s u houter
    · rw [(hbounds.current u hcurrent).scope_allocate]
      exact h.current u hcurrent
  · rw [(hbounds.current s hs).scope_allocate]
    exact h.current s hs

/-- Whatever a scope takes has its body in that scope. -/
theorem Nested.enlist (h : t.Nested) (hbody : ∀ u, (t.object o).body? = some u →
    (t.scope u).outer = some s) : (t.enlist s o).Nested := by
  refine ⟨fun u hu => ?_, fun u p v hp hv => ?_, fun u hu houter => ?_, fun u v houter => ?_,
    fun u hu => ?_⟩
  · rw [owner_enlist, body?_enlist]
    exact h.body_owner u (hasScope_enlist.mp hu)
  · rw [body?_enlist] at hv
    rw [outer_enlist]
    rw [scope_enlist] at hp
    split at hp
    · rename_i hsame
      obtain hold | hnew := List.mem_append.mp hp
      · exact h.outer_body u p v hold hv
      · rw [List.mem_singleton.mp hnew] at hv
        rw [hsame.1]
        exact hbody v hv
    · exact h.outer_body u p v hp hv
  · rw [outer_enlist] at houter
    rw [owner_enlist, mem_roots_object, program_enlist, globals_enlist, ← mem_roots_object]
    exact h.outermost u (hasScope_enlist.mp hu) houter
  · rw [outer_enlist] at houter
    rw [owner_enlist, globals_enlist]
    exact h.enclosing u v houter
  · rw [current_enlist] at hu
    rw [owner_enlist, globals_enlist]
    exact h.current u hu

theorem Nested.assign {a : Assignment} (h : t.Nested) : (t.modifyObject o (·.assign a)).Nested where
  body_owner s hs := by
    rw [body?_assign]
    exact h.body_owner s hs
  outer_body s p u hp hu := by
    rw [body?_assign] at hu
    exact h.outer_body s p u hp hu
  outermost := h.outermost
  enclosing := h.enclosing
  current := h.current

theorem Orderly.nested (hbounds : t.InBounds) (hstep : t.Orderly t') (h : t.Nested) :
    t'.Nested := by
  cases hstep with
  | program hlength hfirst => exact h.allocate hbounds _ (fun _ => hfirst) (absurd rfl)
  | @introduce s b name made hcurrent hkind hfits hlength hrecords =>
    have hinside : t.current ≠ none := by
      rw [hcurrent]
      nofun
    have hmade : made.Nested ∧ ∀ u, (made.object t.nextObject).body? = some u →
        (made.scope u).outer = some s := by
      refine hrecords.preserves (P := fun made => made.Nested ∧
        ∀ u, (made.object t.nextObject).body? = some u → (made.scope u).outer = some s)
        (fun _ _ hbefore => ⟨hbefore.1.assign, fun u hu => ?_⟩) ⟨?_, fun u hu => ?_⟩
      · rw [body?_assign] at hu
        exact hbefore.2 u hu
      · exact h.allocate hbounds name (absurd · hkind) fun _ => hinside
      · rw [object_allocate, if_pos rfl] at hu
        have hnew := (t.body?_newAttributes b).symm.trans hu
        split at hnew
        · rename_i hhas
          rw [scope_allocate, if_pos ⟨hhas, (Option.some.inj hnew).symm⟩]
          exact (if_neg hkind).trans hcurrent
        · cases hnew
    exact hmade.1.enlist hmade.2
  | assign ho hkind => exact h.assign
  | enter hs hopen houter =>
    refine ⟨h.body_owner, h.outer_body, h.outermost, h.enclosing, fun u hu => ?_⟩
    obtain rfl := Option.some.inj hu
    exact hopen
  | @exit s hcurrent =>
    exact ⟨h.body_owner, h.outer_body, h.outermost, h.enclosing, fun u hu => h.enclosing s u hu⟩

/-- A whole session of a parser, begun with a new table, has left the table. -/
def Parsed (t : Table) : Prop :=
  ∃ limit steps, (initial limit).Admits steps ∧ (initial limit).Disciplined steps ∧
    (initial limit).after steps = t

theorem Parsed.reachable (h : t.Parsed) : t.Reachable := by
  obtain ⟨limit, steps, hadmits, _, rfl⟩ := h
  exact (Reachable.initial limit).after hadmits

/-- What a new table has and every orderly step preserves, a parser's session leaves. -/
theorem Parsed.invariant {P : Table → Prop} (hinitial : ∀ limit, P (initial limit))
    (hstep : ∀ {t t' : Table}, t.InBounds → t.Orderly t' → P t → P t') (h : t.Parsed) : P t := by
  obtain ⟨limit, steps, hadmits, hdisciplined, rfl⟩ := h
  have hbounds := initial_inBounds limit
  have horderly := hdisciplined.orderlyTo hbounds (settled_initial limit) hadmits
  exact horderly.preserves hstep hbounds (hinitial limit)

theorem Parsed.nested (h : t.Parsed) : t.Nested :=
  h.invariant nested_initial Orderly.nested

theorem Parsed.settled (h : t.Parsed) : t.Settled :=
  h.invariant settled_initial fun _ hstep => hstep.settled

theorem Parsed.acyclic (h : t.Parsed) : t.Acyclic :=
  h.invariant acyclic_initial Orderly.acyclic

/-- The scopes around a scope end with the body of the program, unless the scope belongs to a
predeclared routine. -/
private theorem Nested.exists_chainFrom (h : t.Nested) (hbounds : t.InBounds)
    (holder : t.OuterOlder)
    (hs : t.HasScope s) (hopen : (t.scope s).owner ∉ t.globals) :
    ∃ chain p body, t.ChainFrom (some s) chain ∧ chain.getLast? = some body ∧
      t.program = some p ∧ (t.object p).body? = some body := by
  induction hi : s.index using Nat.strong_induction_on generalizing s with
  | _ i ih =>
    cases houter : (t.scope s).outer with
    | none =>
      have hprogram := (mem_roots_object.mp (h.outermost s hs houter)).resolve_right hopen
      exact ⟨[s], _, s, ⟨rfl, houter⟩, rfl, hprogram, h.body_owner s hs⟩
    | some u =>
      have hu := (hbounds.scope s hs).outer u houter
      obtain ⟨chain, p, body, hchain, hlast, hprogram, hbody⟩ :=
        ih u.index (hi ▸ holder s u houter) hu (h.enclosing s u houter) rfl
      refine ⟨s :: chain, p, body, ⟨rfl, houter ▸ hchain⟩, ?_, hprogram, hbody⟩
      rw [List.getLast?_cons, hlast]
      rfl

private theorem Nested.housed (h : t.Nested) (hbounds : t.InBounds) (hsettled : t.Settled) :
    t.Housed := by
  intro s hne
  obtain ⟨o, ho⟩ := List.exists_mem_of_ne_nil _ hne
  have hs := hasScope_of_mem_objects ho
  exact ⟨_, h.body_owner s hs, hsettled _ (hbounds.scope s hs).owner⟩

private theorem Parsed.reached_object (h : t.Parsed) (ho : t.HasObject o) :
    t.Reached (.object o) := by
  have hbounds := h.reachable.inBounds
  exact h.reachable.singleOwner.reached_of_registered hbounds
    (h.nested.housed hbounds h.settled) h.acyclic (h.settled o ho)

private theorem Parsed.reached_scope (h : t.Parsed) (hs : t.HasScope s) : t.Reached (.scope s) := by
  have howner := (h.reachable.inBounds.scope s hs).owner
  exact reached_scope_iff.mpr ⟨_, h.reached_object howner, h.nested.body_owner s hs⟩

private theorem Parsed.reachedObjects_eq (h : t.Parsed) : t.reachedObjects = t.objectIds := by
  ext o
  rw [mem_reachedObjects h.reachable.inBounds, mem_objectIds]
  exact ⟨fun ⟨_, hp⟩ => mem_nodes_object.mp (hp.mem_nodes h.reachable.inBounds), h.reached_object⟩

private theorem Parsed.reachedScopes_eq (h : t.Parsed) : t.reachedScopes = t.scopeIds := by
  ext s
  rw [mem_reachedScopes h.reachable.inBounds, mem_scopeIds]
  exact ⟨fun ⟨_, hp⟩ => mem_nodes_scope.mp (hp.mem_nodes h.reachable.inBounds), h.reached_scope⟩

/-- The report counts everything in the table, and no orphans. -/
structure CountsAll (t : Table) (r : Report) : Prop where
  orphanObjects : r.orphanObjects = 0
  orphanScopes : r.orphanScopes = 0
  objects : r.objects = t.objects.size
  scopes : r.scopes = t.scopes.size
  constants : r.constants = {o ∈ t.objectIds | (t.object o).attributes.value?.isSome}.card
  typeNodes : r.typeNodes =
    2 + ∑ o ∈ t.objectIds, ((t.object o).attributes.ty?.map Ty.nodeCount).getD 0

/-- **A parser's session.** The body of a routine lies in the scope that lists the routine, and
all scopes but the bodies of the predeclared routines lie in the body of the program. The release
of the table leaves nothing over: it reaches every object and every scope, and with them every
type and every value that was recorded. -/
theorem Parsed.nested_and_released (h : t.Parsed) :
    (∀ s, ∀ o ∈ (t.scope s).objects, (t.object o).kind.isRoutine →
      ∃ u, (t.object o).body? = some u ∧ (t.scope u).outer = some s) ∧
    (∀ s, t.HasScope s → (∀ o ∈ t.globals, (t.object o).body? ≠ some s) →
      ∃ chain p body, t.ChainFrom (some s) chain ∧ chain.getLast? = some body ∧
        t.program = some p ∧ (t.object p).body? = some body) ∧
    ∃ r, t.release = .ok r ∧ t.CountsAll r := by
  have hbounds := h.reachable.inBounds
  have hnested := h.nested
  refine ⟨fun s o ho hkind => ?_, fun s hs hopen => ?_, ?_⟩
  · obtain ⟨u, hu⟩ := body?_isSome_of_isRoutine hkind
    exact ⟨u, hu, hnested.outer_body s o u ho hu⟩
  · exact hnested.exists_chainFrom hbounds h.reachable.outerOlder hs fun howner =>
      hopen _ howner (hnested.body_owner s hs)
  · obtain ⟨r, hr⟩ := h.reachable.isForest.release hbounds
    have hcounts := counts_of_release hbounds hr
    refine ⟨r, hr, ?_, ?_, ?_, ?_, ?_, ?_⟩
    · rw [hcounts.orphanObjects, h.reachedObjects_eq, Finset.sdiff_self, Finset.card_empty]
    · rw [hcounts.orphanScopes, h.reachedScopes_eq, Finset.sdiff_self, Finset.card_empty]
    · rw [hcounts.objects, h.reachedObjects_eq, card_objectIds]
    · rw [hcounts.scopes, h.reachedScopes_eq, card_scopeIds]
    · rw [hcounts.constants, h.reachedObjects_eq]
    · rw [hcounts.typeNodes, h.reachedObjects_eq, Nat.add_comm]
      rfl

/-- A parser has met a constant, and a function whose parameter precedes a local procedure. It has
tried to declare the procedure twice and to leave more blocks than it entered, and then it has
tried to load a second program. -/
def parserSession : List Step :=
  [.command (.create .program "P"), .command (.enter ⟨5⟩),
   .command (.create .constant "c"), .command (.assign ⟨8⟩ (.constant (.int 1))),
   .command (.declare ⟨8⟩),
   .command (.create .function "f"), .command (.assign ⟨9⟩ (.function .char)),
   .command (.declare ⟨9⟩), .command (.enter ⟨6⟩),
   .command (.create (.parameter .byReference ⟨9⟩) "x"),
   .command (.assign ⟨10⟩ (.parameter .int)), .command (.declare ⟨10⟩),
   .command (.create .procedure "g"), .command (.declare ⟨11⟩), .command (.declare ⟨11⟩),
   .command (.enter ⟨7⟩), .command .exit, .command .exit, .command .exit, .command .exit,
   .command .loadReference]

theorem nested_and_released_parserSession : ((initial 15).after parserSession).Parsed ∧
    (∃ chain p body, ((initial 15).after parserSession).ChainFrom (some ⟨7⟩) chain ∧
      chain.getLast? = some body ∧ ((initial 15).after parserSession).program = some p ∧
      (((initial 15).after parserSession).object p).body? = some body) ∧
    ∃ r, ((initial 15).after parserSession).release = .ok r ∧ r.objects = 12 ∧ r.scopes = 8 ∧
      r.orphanObjects = 0 := by
  have hparsed : ((initial 15).after parserSession).Parsed :=
    ⟨15, parserSession, by decide +kernel, by decide +kernel, rfl⟩
  obtain ⟨_, hchain, r, hr, hcounts⟩ := hparsed.nested_and_released
  refine ⟨hparsed, hchain ⟨7⟩ (by decide +kernel) (by decide +kernel), r, hr, ?_, ?_,
    hcounts.orphanObjects⟩
  · rw [hcounts.objects]
    decide +kernel
  · rw [hcounts.scopes]
    decide +kernel

end BlockScope.Table
