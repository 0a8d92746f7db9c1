import BlockScope.Proofs.Parameters.Interleaving
import BlockScope.Proofs.Predeclared.Sealed

namespace BlockScope.Table

/-- The parameters among the declarations of `s`, if `s` belongs to `r`. -/
def paramsIn (t : Table) (r : ObjectId) (s : ScopeId) : List ObjectId :=
  if (t.scope s).owner = r then
    (t.scope s).objects.filter fun o => (t.object o).kind = .parameter
  else []

/-- The parameter list of a routine consists of the parameters that the scopes of the routine
declare, and keeps the order of each scope. -/
def ParamsIndexed (t : Table) : Prop :=
  ∀ r params, (t.object r).params? = some params → Interleaves (t.paramsIn r) params

variable {t t' : Table} {r o p : ObjectId} {s u : ScopeId}

theorem mem_paramsIn : p ∈ t.paramsIn r s ↔
    (t.scope s).owner = r ∧ p ∈ (t.scope s).objects ∧ (t.object p).kind = .parameter := by
  unfold paramsIn
  split <;> simp_all

/-- The parameters of a scope stay as they are if its list does, with the owner and the kinds of
what is listed. -/
private theorem paramsIn_congr (hobjects : (t'.scope s).objects = (t.scope s).objects)
    (howner : (t.scope s).objects ≠ [] → (t'.scope s).owner = (t.scope s).owner)
    (hkind : ∀ o ∈ (t.scope s).objects, (t'.object o).kind = (t.object o).kind) :
    t'.paramsIn r s = t.paramsIn r s := by
  unfold paramsIn
  rw [hobjects]
  by_cases hempty : (t.scope s).objects = []
  · simp [hempty]
  · rw [howner hempty]
    split
    · exact List.filter_congr fun o ho => by rw [hkind o ho]
    · rfl

private theorem paramsIn_initial (limit : Nat) (r : ObjectId) (s : ScopeId) :
    (initial limit).paramsIn r s =
      if s = ⟨2⟩ ∧ r = ⟨2⟩ then [⟨3⟩] else if s = ⟨3⟩ ∧ r = ⟨4⟩ then [⟨5⟩] else [] := by
  obtain ⟨i⟩ := s
  by_cases hi : i < 5
  · interval_cases i <;>
      simp [paramsIn, scope, scopes_initial, object, objects_initial, Object.kind, Attributes.kind,
        eq_comm]
  · have hnone : ¬ (initial limit).HasScope ⟨i⟩ := hi
    have hempty : (default : Scope).objects = [] := rfl
    have hother : i ≠ 2 ∧ i ≠ 3 := by omega
    unfold paramsIn
    rw [scope_of_not_hasScope hnone]
    simp [hempty, hother]

private theorem paramsIndexed_initial (limit : Nat) : (initial limit).ParamsIndexed := by
  rintro ⟨i⟩ params hparams
  by_cases hi : i < 7
  · interval_cases i <;>
      simp [object, objects_initial, Object.params?, Attributes.params?] at hparams <;>
      subst hparams
    case «2» =>
      exact .singleton ⟨2⟩ (by simp [paramsIn_initial]) fun s hs => by simp [paramsIn_initial, hs]
    case «4» =>
      exact .singleton ⟨3⟩ (by simp [paramsIn_initial]) fun s hs => by simp [paramsIn_initial, hs]
    all_goals exact .of_forall_eq_nil fun s => by simp [paramsIn_initial]
  · have hnone : ¬ (initial limit).HasObject ⟨i⟩ := hi
    rw [object_of_not_hasObject hnone] at hparams
    cases hparams

/-- What belongs to no object declares nothing. -/
private theorem InBounds.paramsIn_eq_nil (h : t.InBounds) (hr : ¬ t.HasObject r) (s : ScopeId) :
    t.paramsIn r s = [] := by
  refine List.eq_nil_iff_forall_not_mem.mpr fun p hp => ?_
  obtain ⟨rfl, hlisted, _⟩ := mem_paramsIn.mp hp
  exact hr (h.scope s (hasScope_of_mem_objects hlisted)).owner

private theorem InBounds.paramsIn_allocate (h : t.InBounds) (b : Blueprint) (name : String)
    (r : ObjectId) : (t.allocate b name).paramsIn r = t.paramsIn r := by
  funext s
  by_cases hs : t.HasScope s
  · have hscope := hs.scope_allocate b name
    refine paramsIn_congr (congrArg Scope.objects hscope) (fun _ => congrArg Scope.owner hscope)
      fun o ho => ?_
    rw [((h.scope s hs).objects o ho).object_allocate]
  · have hempty : (t.scope s).objects = [] := congrArg Scope.objects (scope_of_not_hasScope hs)
    refine paramsIn_congr ?_ (absurd hempty) fun o ho => ?_
    · rw [hempty, scope_allocate]
      split
      · rfl
      · exact hempty
    · rw [hempty] at ho
      cases ho

private theorem paramsIn_createScope (owner : ObjectId) (outer : Option ScopeId) (r : ObjectId) :
    (t.createScope owner outer).table.paramsIn r = t.paramsIn r := by
  funext s
  by_cases hs : s = t.nextScope
  · have hnone : ¬ t.HasScope s := hs ▸ not_hasScope_nextScope
    have hempty : (t.scope s).objects = [] := congrArg Scope.objects (scope_of_not_hasScope hnone)
    refine paramsIn_congr ?_ (absurd hempty) fun o _ => rfl
    rw [scope_createScope, if_pos hs, hempty]
  · have hscope : (t.createScope owner outer).table.scope s = t.scope s := by
      rw [scope_createScope, if_neg hs]
    exact paramsIn_congr (congrArg Scope.objects hscope) (fun _ => congrArg Scope.owner hscope)
      fun _ _ => rfl

/-- A declaration adds a parameter to the part that it belongs to, and changes no other. -/
theorem paramsIn_enlist (hs : t.HasScope s) (o r : ObjectId) :
    (t.enlist s o).paramsIn r =
      if (t.object o).kind = .parameter ∧ (t.scope s).owner = r then
        Function.update (t.paramsIn r) s (t.paramsIn r s ++ [o])
      else t.paramsIn r := by
  have hother (u : ScopeId) (hne : u ≠ s) : (t.enlist s o).paramsIn r u = t.paramsIn r u := by
    refine paramsIn_congr ?_ (fun _ => owner_enlist s u o) fun p _ => kind_enlist s o p
    rw [scope_enlist, if_neg fun h => hne h.1]
  have hhere : (t.enlist s o).paramsIn r s = t.paramsIn r s ++
      if (t.object o).kind = .parameter ∧ (t.scope s).owner = r then [o] else [] := by
    have hscope : (t.enlist s o).scope s = (t.scope s).add o := by
      rw [scope_enlist, if_pos ⟨rfl, hs⟩]
    unfold paramsIn
    rw [hscope]
    by_cases howner : (t.scope s).owner = r
    · by_cases hkind : (t.object o).kind = .parameter <;> simp [Scope.add, howner, hkind]
    · simp [Scope.add, howner]
  funext u
  obtain rfl | hne := eq_or_ne u s
  · rw [hhere]
    split <;> simp
  · rw [hother u hne]
    split <;> simp [hne]

theorem ParamsIndexed.transition (hbounds : t.InBounds) (hstep : t.Transition t')
    (h : t.ParamsIndexed) : t'.ParamsIndexed := by
  intro r params hparams
  cases hstep with
  | @create b name hfits hlength hfirst =>
    rw [hbounds.paramsIn_allocate]
    rw [object_allocate] at hparams
    by_cases hnew : r = t.nextObject
    · have hempty : params = [] := by
        rw [if_pos hnew] at hparams
        have hlist := (t.params?_newAttributes b).symm.trans hparams
        split at hlist
        · exact (Option.some.inj hlist).symm
        · cases hlist
      rw [hempty, hnew]
      exact .of_forall_eq_nil (hbounds.paramsIn_eq_nil not_hasObject_nextObject)
    · rw [if_neg hnew] at hparams
      exact h r params hparams
  | createScope howner houter =>
    rw [paramsIn_createScope]
    exact h r params hparams
  | @assign o a ho hkind =>
    rw [params?_assign] at hparams
    have hsame : (t.modifyObject o (·.assign a)).paramsIn r = t.paramsIn r :=
      funext fun s => paramsIn_congr rfl (fun _ => rfl) fun p _ => kind_assign o p a
    rw [hsame]
    exact h r params hparams
  | enter hs hopen houter => exact h r params hparams
  | exit hcurrent => exact h r params hparams
  | @declare s o hcurrent ho hfresh =>
    have hs : t.HasScope s := hbounds.current s hcurrent
    have howner : t.HasObject (t.scope s).owner := (hbounds.scope s hs).owner
    rw [paramsIn_enlist hs]
    rw [params?_enlist] at hparams
    by_cases hjoins : (t.object o).kind = .parameter ∧ (t.scope s).owner = r
    · obtain ⟨hkind, rfl⟩ := hjoins
      rw [if_pos ⟨hkind, rfl, howner⟩] at hparams
      obtain ⟨before, hbefore, rfl⟩ := Option.map_eq_some_iff.mp hparams
      rw [if_pos ⟨hkind, rfl⟩]
      exact (h _ before hbefore).snoc s o
    · rw [if_neg fun hjoins' => hjoins ⟨hjoins'.1, hjoins'.2.1.symm⟩] at hparams
      rw [if_neg hjoins]
      exact h r params hparams

theorem Reachable.paramsIndexed (h : t.Reachable) : t.ParamsIndexed :=
  h.invariant paramsIndexed_initial ParamsIndexed.transition

/-- A registered parameter is in the list of a scope, for the table itself holds no parameters. -/
private theorem Reachable.exists_mem_objects (h : t.Reachable)
    (hregistered : (t.object p).registered)
    (hkind : (t.object p).kind = .parameter) : ∃ s, p ∈ (t.scope s).objects := by
  rw [h.singleOwner.registered_iff, mem_roots_object] at hregistered
  obtain (hprogram | hglobal) | hlisted := hregistered
  · rw [(h.singleOwner.program p).mpr hprogram] at hkind
    cases hkind
  · have hroutine := h.isSealed.isRoutine_of_mem_globals hglobal
    rw [hkind] at hroutine
    cases hroutine
  · exact hlisted

/-- A parameter is in the list of a routine exactly if the scope that declares it belongs to the
routine. -/
theorem Reachable.mem_params_iff (h : t.Reachable) {params : List ObjectId}
    (hparams : t.params r = .ok params) (hlisted : p ∈ (t.scope s).objects)
    (hkind : (t.object p).kind = .parameter) : p ∈ params ↔ (t.scope s).owner = r := by
  rw [(h.paramsIndexed r params (params_eq_ok_iff.mp hparams)).mem_iff]
  constructor
  · rintro ⟨u, hu⟩
    obtain ⟨howner, hmem, _⟩ := mem_paramsIn.mp hu
    rwa [h.singleOwner.eq_of_mem_objects hlisted hmem]
  · exact fun howner => ⟨s, mem_paramsIn.mpr ⟨howner, hlisted, hkind⟩⟩

private theorem Reachable.nodup_params (h : t.Reachable) {params : List ObjectId}
    (hparams : t.params r = .ok params) : params.Nodup := by
  refine (h.paramsIndexed r params (params_eq_ok_iff.mp hparams)).nodup (fun s => ?_) ?_
  · unfold paramsIn
    split
    · exact (h.singleOwner.nodup_objects s).filter _
    · exact .nil
  · intro s u p hs hu
    exact h.singleOwner.eq_of_mem_objects (mem_paramsIn.mp hs).2.1 (mem_paramsIn.mp hu).2.1

/-- A routine with no scope but its body has the parameters that its body declares. -/
theorem Reachable.params_eq_filter (h : t.Reachable) {params : List ObjectId} {body : ScopeId}
    (hparams : t.params r = .ok params) (hbody : (t.scope body).owner = r)
    (honly : ∀ s, t.HasScope s → (t.scope s).owner = r → s = body) :
    params = (t.scope body).objects.filter fun o => (t.object o).kind = .parameter := by
  have hindexed := h.paramsIndexed r params (params_eq_ok_iff.mp hparams)
  rw [hindexed.eq_of_only body, paramsIn, if_pos hbody]
  intro s hne
  refine List.eq_nil_iff_forall_not_mem.mpr fun p hp => ?_
  obtain ⟨howner, hlisted, _⟩ := mem_paramsIn.mp hp
  exact hne (honly s (hasScope_of_mem_objects hlisted) howner)

/-- **The parameter lists index the declarations.** After any session, the list of a routine has no
repetitions, and it consists of the parameters that the scopes of the routine declare, with the
order of each scope kept. If the routine has no scope but its body, the parameters of the body are
the whole list. Every registered parameter is declared in one scope, and it is in the list of a
routine exactly if that scope belongs to the routine. -/
theorem Reachable.params_interleave (h : t.Reachable) :
    (∀ r, (t.object r).kind.isRoutine → ∃ params, t.params r = .ok params ∧ params.Nodup ∧
        (∀ p ∈ params, (t.object p).registered ∧ (t.object p).kind = .parameter) ∧
        Interleaves (t.paramsIn r) params ∧
        ∃ body, t.bodyScope r = .ok body ∧ (t.scope body).owner = r ∧
          ((∀ s, t.HasScope s → (t.scope s).owner = r → s = body) →
            params = (t.scope body).objects.filter fun o => (t.object o).kind = .parameter)) ∧
      ∀ p, (t.object p).registered → (t.object p).kind = .parameter →
        ∃ s, p ∈ (t.scope s).objects ∧ (∀ u, p ∈ (t.scope u).objects → u = s) ∧
          (∀ r params, t.params r = .ok params → (p ∈ params ↔ (t.scope s).owner = r)) ∧
          ((t.object (t.scope s).owner).kind.isRoutine = false →
            ∀ r params, t.params r = .ok params → p ∉ params) := by
  constructor
  · intro r hroutine
    obtain ⟨params, hlist⟩ := params?_isSome_of_isRoutine hroutine
    obtain ⟨body, hbody⟩ := body?_isSome_of_isRoutine hroutine
    have hparams := params_eq_ok_iff.mpr hlist
    have hindexed := h.paramsIndexed r params hlist
    have howner := h.bodiesOwned r body hbody
    refine ⟨params, hparams, h.nodup_params hparams, fun p hp => ?_, hindexed, body, ?_, howner,
      h.params_eq_filter hparams howner⟩
    · obtain ⟨s, hs⟩ := hindexed.mem_iff.mp hp
      obtain ⟨_, hlisted, hkind⟩ := mem_paramsIn.mp hs
      exact ⟨h.singleOwner.registered_iff.mpr (.inr ⟨s, hlisted⟩), hkind⟩
    · rw [bodyScope, hbody]
  · intro p hregistered hkind
    obtain ⟨s, hlisted⟩ := h.exists_mem_objects hregistered hkind
    refine ⟨s, hlisted, fun u hu => h.singleOwner.eq_of_mem_objects hu hlisted,
      fun r params hparams => h.mem_params_iff hparams hlisted hkind,
      fun hstray r params hparams hp => ?_⟩
    obtain rfl := (h.mem_params_iff hparams hlisted hkind).mp hp
    rw [isRoutine_of_params? (params_eq_ok_iff.mp hparams)] at hstray
    cases hstray

/-- A procedure has a second scope, made by hand inside its body. Its parameters are declared in the
body and in that scope by turns, and one more in the program. -/
def alternating : List Step :=
  [.command (.create .program "P"), .command (.enter ⟨5⟩),
   .command (.create .procedure "p"), .command (.declare ⟨8⟩),
   .command (.createScope ⟨8⟩ (some ⟨6⟩)),
   .command (.create (.parameter .byValue ⟨8⟩) "a"),
   .command (.create (.parameter .byValue ⟨8⟩) "b"),
   .command (.create (.parameter .byReference ⟨8⟩) "c"),
   .command (.create (.parameter .byValue ⟨8⟩) "d"),
   .command (.enter ⟨6⟩), .command (.declare ⟨9⟩), .command (.enter ⟨7⟩), .command (.declare ⟨10⟩),
   .command .exit, .command (.declare ⟨11⟩), .command .exit, .command (.declare ⟨12⟩)]

theorem params_interleave_alternating : ((initial 15).after alternating).Reachable ∧
    ((initial 15).after alternating).params ⟨8⟩ = .ok [⟨9⟩, ⟨10⟩, ⟨11⟩] ∧
    Interleaves (((initial 15).after alternating).paramsIn ⟨8⟩) [⟨9⟩, ⟨10⟩, ⟨11⟩] ∧
    ((initial 15).after alternating).paramsIn ⟨8⟩ ⟨6⟩ = [⟨9⟩, ⟨11⟩] ∧
    ∀ r params, ((initial 15).after alternating).params r = .ok params → ⟨12⟩ ∉ params := by
  have hreachable : ((initial 15).after alternating).Reachable :=
    (Reachable.initial 15).after (by decide)
  obtain ⟨hroutines, hregistered⟩ := hreachable.params_interleave
  obtain ⟨params, hparams, _, _, hindexed, _⟩ := hroutines ⟨8⟩ (by decide)
  have hlist : ((initial 15).after alternating).params ⟨8⟩ = .ok [⟨9⟩, ⟨10⟩, ⟨11⟩] := by decide
  obtain rfl : params = [⟨9⟩, ⟨10⟩, ⟨11⟩] := Except.ok.inj (hparams.symm.trans hlist)
  obtain ⟨s, hlisted, honce, _, hstray⟩ := hregistered ⟨12⟩ (by decide) (by decide)
  obtain rfl : ⟨5⟩ = s := honce ⟨5⟩ (by decide)
  exact ⟨hreachable, hlist, hindexed, by decide, hstray (by decide)⟩

end BlockScope.Table
