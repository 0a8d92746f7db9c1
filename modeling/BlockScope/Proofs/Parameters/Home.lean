import BlockScope.Proofs.Parameters.Index
import BlockScope.Proofs.Session.Growth

namespace BlockScope

namespace Table

/-- The parameter `p` was made for the routine `r` and is declared in its body. -/
def AtHome (t : Table) (r p : ObjectId) : Prop :=
  (t.object p).attributes.owner? = some r ∧
    ∃ body, t.bodyScope r = .ok body ∧ p ∈ (t.scope body).objects

/-- The routines list no parameters but those that were made for them and are declared in their
bodies. -/
def ParamsAtHome (t : Table) : Prop :=
  ∀ r params, t.params r = .ok params → ∀ p ∈ params, t.AtHome r p

/-- Declaring the object would be accepted, and a routine would list a parameter that was not made
for it or that is declared outside its body. -/
def Misplaces (t : Table) (o : ObjectId) : Prop :=
  ∃ s, t.current = some s ∧ (t.object o).registered = false ∧ (t.object o).kind = .parameter ∧
    (t.object (t.scope s).owner).kind.isRoutine ∧
    ¬ ((t.object o).attributes.owner? = some (t.scope s).owner ∧
      t.bodyScope (t.scope s).owner = .ok s)

variable {t t' : Table} {r o p : ObjectId} {s : ScopeId} {params : List ObjectId}

private theorem hasObject_of_params (hparams : t.params r = .ok params) : t.HasObject r := by
  refine Decidable.byContradiction fun hnone => ?_
  have hlist := params_eq_ok_iff.mp hparams
  rw [object_of_not_hasObject hnone] at hlist
  cases hlist

private theorem InBounds.hasObject_of_mem_params (h : t.InBounds)
    (hparams : t.params r = .ok params)
    (hp : p ∈ params) : t.HasObject p := by
  have hattributes := h.attributes r (hasObject_of_params hparams)
  have hlist : (t.object r).attributes.params? = some params := params_eq_ok_iff.mp hparams
  cases hkind : (t.object r).attributes with
  | function list result body =>
    rw [hkind] at hattributes hlist
    cases hlist
    exact hattributes.1 p hp
  | procedure list body =>
    rw [hkind] at hattributes hlist
    cases hlist
    exact hattributes.1 p hp
  | _ =>
    rw [hkind] at hlist
    cases hlist

/-- What is at home stays there. -/
private theorem AtHome.grow (h : t.AtHome r p) (hgrows : t.GrowsTo t') (hr : t.HasObject r)
    (hp : t.HasObject p) : t'.AtHome r p := by
  obtain ⟨howner, body, hbody, hlisted⟩ := h
  refine ⟨(hgrows.grown hp).owner?.trans howner, body, (hgrows.bodyScope_eq hr).trans hbody, ?_⟩
  exact (hgrows.declared (hasScope_of_mem_objects hlisted)).subset hlisted

/-- Only a parameter that has not been listed before can be out of place. -/
private theorem ParamsAtHome.grow (h : t.ParamsAtHome) (hbounds : t.InBounds)
    (hgrows : t.GrowsTo t')
    (hlisted : ∀ r params', t'.params r = .ok params' → ∀ p ∈ params',
      (∃ params, t.params r = .ok params ∧ p ∈ params) ∨ t'.AtHome r p) : t'.ParamsAtHome := by
  intro r params' hparams' p hp
  obtain ⟨params, hparams, hold⟩ | hnew := hlisted r params' hparams' p hp
  · exact (h r params hparams p hold).grow hgrows (hasObject_of_params hparams)
      (hbounds.hasObject_of_mem_params hparams hold)
  · exact hnew

private theorem ParamsAtHome.of_params_eq (h : t.ParamsAtHome) (hbounds : t.InBounds)
    (hgrows : t.GrowsTo t') (hsame : ∀ r, (t'.object r).params? = (t.object r).params?) :
    t'.ParamsAtHome := by
  refine h.grow hbounds hgrows fun r params' hparams' p hp => .inl ⟨params', ?_, hp⟩
  rw [params_eq_ok_iff, ← hsame r]
  exact params_eq_ok_iff.mp hparams'

private theorem paramsAtHome_initial (limit : Nat) : (initial limit).ParamsAtHome := by
  rintro ⟨i⟩ params hparams p hp
  have hi : i < 7 := hasObject_of_params hparams
  have hlist := params_eq_ok_iff.mp hparams
  interval_cases i <;>
    simp [object, objects_initial, Object.params?, Attributes.params?] at hlist <;>
    subst hlist
  case «2» =>
    obtain rfl := List.mem_singleton.mp hp
    have hbody : ((initial limit).object ⟨2⟩).body? = some ⟨2⟩ := by
      simp [object, objects_initial, Object.body?, Attributes.body?]
    exact ⟨by simp [object, objects_initial, Attributes.owner?], ⟨2⟩,
      bodyScope_eq_ok_iff.mpr hbody, by simp [scope, scopes_initial]⟩
  case «4» =>
    obtain rfl := List.mem_singleton.mp hp
    have hbody : ((initial limit).object ⟨4⟩).body? = some ⟨3⟩ := by
      simp [object, objects_initial, Object.body?, Attributes.body?]
    exact ⟨by simp [object, objects_initial, Attributes.owner?], ⟨3⟩,
      bodyScope_eq_ok_iff.mpr hbody, by simp [scope, scopes_initial]⟩
  all_goals cases hp

/-- A new routine lists nothing. -/
theorem ParamsAtHome.allocate (h : t.ParamsAtHome) (hbounds : t.InBounds) {b : Blueprint}
    {name : String} (hgrows : t.GrowsTo (t.allocate b name)) :
    (t.allocate b name).ParamsAtHome := by
  refine h.grow hbounds hgrows fun r params' hparams' p hp => .inl ⟨params', ?_, hp⟩
  have hlist := params_eq_ok_iff.mp hparams'
  rw [object_allocate] at hlist
  by_cases hnew : r = t.nextObject
  · rw [if_pos hnew] at hlist
    have hempty := (t.params?_newAttributes b).symm.trans hlist
    split at hempty
    · rw [← Option.some.inj hempty] at hp
      cases hp
    · cases hempty
  · rw [if_neg hnew] at hlist
    exact params_eq_ok_iff.mpr hlist

/-- A declaration that does not misplace the object lists it, if at all, at its home. -/
theorem ParamsAtHome.enlist (h : t.ParamsAtHome) (hbounds : t.InBounds)
    (hcurrent : t.current = some s) (ho : t.HasObject o) (hfresh : (t.object o).registered = false)
    (hplaced : ¬ t.Misplaces o) : (t.enlist s o).ParamsAtHome := by
  have hgrows : t.GrowsTo (t.enlist s o) := (Transition.declare hcurrent ho hfresh).growsTo
  have hs : t.HasScope s := hbounds.current s hcurrent
  refine h.grow hbounds hgrows fun r params' hparams' p hp => ?_
  have hlist := params_eq_ok_iff.mp hparams'
  rw [params?_enlist] at hlist
  split at hlist
  · rename_i hjoins
    obtain ⟨hkind, rfl, howner⟩ := hjoins
    obtain ⟨params, hparams, rfl⟩ := Option.map_eq_some_iff.mp hlist
    obtain hold | hnew := List.mem_append.mp hp
    · exact .inl ⟨params, params_eq_ok_iff.mpr hparams, hold⟩
    · obtain rfl := List.mem_singleton.mp hnew
      obtain ⟨hmade, hbody⟩ := Classical.not_not.mp fun hastray =>
        hplaced ⟨s, hcurrent, hfresh, hkind, isRoutine_of_params? hparams, hastray⟩
      refine .inr ⟨(hgrows.grown ho).owner?.trans hmade, s,
        (hgrows.bodyScope_eq howner).trans hbody, mem_objects_enlist hs p⟩
  · exact .inl ⟨params', params_eq_ok_iff.mpr hlist, hp⟩

/-- What has been misplaced stays misplaced: it is in the list of some scope already, and no other
scope can take it later. -/
theorem ParamsAtHome.of_growsTo (h : t'.ParamsAtHome) (hreachable : t.Reachable)
    (hreachable' : t'.Reachable) (hgrows : t.GrowsTo t') : t.ParamsAtHome := by
  intro r params hparams p hp
  have hr : t.HasObject r := hasObject_of_params hparams
  have hpt : t.HasObject p := hreachable.inBounds.hasObject_of_mem_params hparams hp
  obtain ⟨params', hparams', hgoesOn⟩ := hgrows.params_prefix hr hparams
  obtain ⟨howner, body, hbody, hlisted'⟩ := h r params' hparams' p (hgoesOn.subset hp)
  rw [(hgrows.grown hpt).owner?] at howner
  rw [hgrows.bodyScope_eq hr] at hbody
  refine ⟨howner, body, hbody, ?_⟩
  obtain ⟨s, hs⟩ := (hreachable.paramsIndexed r params (params_eq_ok_iff.mp hparams)).mem_iff.mp hp
  obtain ⟨_, hlisted, _⟩ := mem_paramsIn.mp hs
  have hlater := (hgrows.declared (hasScope_of_mem_objects hlisted)).subset hlisted
  rwa [hreachable'.singleOwner.eq_of_mem_objects hlisted' hlater]

/-- A misplaced object is in a list where it is not at home. -/
private theorem Misplaces.not_paramsAtHome (h : t.Misplaces o) (hbounds : t.InBounds)
    (ho : t.HasObject o)
    (hreachable : (t.step (.command (.declare o))).table.Reachable) :
    ¬ (t.step (.command (.declare o))).table.ParamsAtHome := by
  obtain ⟨s, hcurrent, hfresh, hkind, hroutine, hastray⟩ := h
  have hstep : (t.step (.command (.declare o))).table = t.enlist s o :=
    congrArg Outcome.table (step_declare hcurrent hfresh)
  rw [hstep] at hreachable ⊢
  have hgrows : t.GrowsTo (t.enlist s o) := (Transition.declare hcurrent ho hfresh).growsTo
  have hs : t.HasScope s := hbounds.current s hcurrent
  have howner : t.HasObject (t.scope s).owner := (hbounds.scope s hs).owner
  obtain ⟨params, hparams⟩ := params?_isSome_of_isRoutine hroutine
  have hlist : (t.enlist s o).params (t.scope s).owner = .ok (params ++ [o]) := by
    rw [params_eq_ok_iff, params?_enlist, if_pos ⟨hkind, rfl, howner⟩, hparams]
    rfl
  intro hhome
  obtain ⟨hmade, body, hbody, hlisted⟩ := hhome _ _ hlist o List.mem_concat_self
  obtain rfl : body = s :=
    hreachable.singleOwner.eq_of_mem_objects hlisted (mem_objects_enlist hs o)
  rw [(hgrows.grown ho).owner?] at hmade
  rw [hgrows.bodyScope_eq howner] at hbody
  exact hastray ⟨hmade, hbody⟩

theorem ParamsAtHome.assign (h : t.ParamsAtHome) (hbounds : t.InBounds) {a : Assignment}
    (ho : t.HasObject o) (hkind : (t.object o).kind = a.kind) :
    (t.modifyObject o (·.assign a)).ParamsAtHome :=
  h.of_params_eq hbounds (Transition.assign ho hkind).growsTo fun _ => params?_assign _ _ _

/-- The scope `s` is the body of its owner. -/
def IsBody (t : Table) (s : ScopeId) : Prop :=
  t.bodyScope (t.scope s).owner = .ok s

theorem IsBody.leadsTo (h : t.IsBody s) (hbounds : t.InBounds) (hs : t.HasScope s)
    (hleads : t.LeadsTo t') : t'.IsBody s := by
  rw [IsBody, hleads.continues.owner hs, hleads.growsTo.bodyScope_eq (hbounds.scope s hs).owner]
  exact h

namespace Takes

variable {hd : Heading}

/-- A new object that is not declared yet is in no list. -/
private theorem paramsAtHome_prepare (htakes : t.Takes s hd) (hhome : t.ParamsAtHome) :
    (t.prepare s hd).ParamsAtHome := by
  have hboth := records_prepare.preserves (P := fun t => t.InBounds ∧ t.ParamsAtHome)
    (fun ho hsame hbefore => ⟨hbefore.1.transition (.assign ho hsame),
      hbefore.2.assign hbefore.1 ho hsame⟩)
    ⟨htakes.inBounds.transition htakes.creates,
      hhome.allocate htakes.inBounds htakes.creates.growsTo⟩
  exact hboth.2

/-- A parameter is made for the owner of the scope that it is declared in. -/
private theorem owner?_prepare (hkind : hd.kind = .parameter) :
    ((t.prepare s hd).object t.nextObject).attributes.owner? = some (t.scope s).owner := by
  have hnew : (t.allocate (hd.blueprint (t.scope s).owner) hd.name).HasObject t.nextObject :=
    hasObject_allocate.mpr (.inr rfl)
  rw [(records_prepare.leadsTo.growsTo.grown hnew).owner?, object_allocate, if_pos rfl]
  cases hd with
  | parameter => rfl
  | _ => cases hkind

/-- What is declared in a body leaves the parameters at home. -/
private theorem paramsAtHome (htakes : t.Takes s hd) (hbody : t.IsBody s) (hhome : t.ParamsAtHome) :
    (t.insert s hd).ParamsAtHome := by
  have hleads := (LeadsTo.single htakes.creates).trans records_prepare.leadsTo
  refine (htakes.paramsAtHome_prepare hhome).enlist (htakes.inBounds.leadsTo hleads)
    (current_prepare.trans htakes.current) (hasObject_prepare.mpr (.inr rfl))
    (registered_prepare htakes.declares.kind_ne_program) ?_
  rintro ⟨u, hcurrent, _, hkind, _, hastray⟩
  obtain rfl := Option.some.inj ((current_prepare.trans htakes.current).symm.trans hcurrent)
  refine hastray ⟨?_, hbody.leadsTo htakes.inBounds htakes.hasScope hleads⟩
  rw [hleads.continues.owner htakes.hasScope]
  exact owner?_prepare (kind_prepare.symm.trans hkind)

private theorem isBody_open (htakes : t.Takes s hd) (hbody : hd.kind.hasBody) :
    (t.insertOpen s hd).IsBody t.nextScope := by
  rw [IsBody, htakes.owner_open hbody, bodyScope_eq_ok_iff, object_insertOpen]
  exact htakes.body? hbody

end Takes

private theorem paramsAtHome_moveTo (current : Option ScopeId) :
    { t with current }.ParamsAtHome ↔ t.ParamsAtHome :=
  Iff.rfl

/-- Loading declarations into a body leaves the parameters at home: they are made for the routine
whose body is current. -/
theorem Loads.paramsAtHome {f : Forest Heading} {result : Except SemanticError Unit}
    (h : t.Loads s f result t') (hbody : t.IsBody s) (hhome : t.ParamsAtHome) :
    t'.ParamsAtHome := by
  induction h with
  | done | refused => exact hhome
  | plain htakes _ _ ih =>
    exact ih (hbody.leadsTo htakes.inBounds htakes.hasScope htakes.leadsTo)
      (htakes.paramsAtHome hbody hhome)
  | inside htakes hroutine _ ih =>
    exact ih (htakes.isBody_open hroutine)
      ((paramsAtHome_moveTo _).mpr (htakes.paramsAtHome hbody hhome))
  | routine htakes hroutine hbelow _ ihBelow ihAfter =>
    have hfilled := ihBelow (htakes.isBody_open hroutine)
      ((paramsAtHome_moveTo _).mpr (htakes.paramsAtHome hbody hhome))
    have hleads := leadsTo_filled htakes hroutine hbelow
    exact ihAfter (hbody.leadsTo htakes.inBounds htakes.hasScope hleads)
      ((paramsAtHome_moveTo _).mpr hfilled)

/-- Loading a program leaves the parameters at home, whether or not it gets to its end. -/
theorem LoadsProgram.paramsAtHome {p : Program} {result : Except SemanticError ObjectId}
    (h : t.LoadsProgram p result t') (hhome : t.ParamsAtHome) : t'.ParamsAtHome := by
  have hmade (htakes : t.TakesProgram p.name) : (t.allocate .program p.name).ParamsAtHome :=
    hhome.allocate htakes.inBounds htakes.orderly.leadsTo.growsTo
  have hbody : (t.openProgram p.name).IsBody t.nextScope := by
    rw [IsBody, scope_openProgram, scope_allocate_program, bodyScope_eq_ok_iff, object_openProgram]
    exact body?_allocate p.name rfl
  cases h with
  | refused => exact hhome
  | unopened htakes => exact hmade htakes
  | inside htakes _ hblock => exact hblock.paramsAtHome hbody (hmade htakes)
  | done htakes _ hblock =>
    exact (paramsAtHome_moveTo _).mpr (hblock.paramsAtHome hbody (hmade htakes))

end Table

namespace Table

variable {t : Table}

/-- A step leaves the parameters at home exactly if they have been there and it does not misplace
one. -/
theorem paramsAtHome_step_iff (h : t.Reachable) {action : Step} (hfits : action.Fits t) :
    (t.step action).table.ParamsAtHome ↔
      t.ParamsAtHome ∧ ∀ o, action = .command (.declare o) → ¬ t.Misplaces o := by
  have hbounds := h.inBounds
  have hleads := step_leadsTo hbounds hfits
  constructor
  · intro hhome
    refine ⟨hhome.of_growsTo h (h.step action hfits) hleads.growsTo, ?_⟩
    rintro o rfl hmisplaces
    exact hmisplaces.not_paramsAtHome hbounds hfits (h.step _ hfits) hhome
  · rintro ⟨hhome, hplaced⟩
    have hgrows := hleads.growsTo
    have heffect := t.step_effect action
    generalize (t.step action).table = after at heffect hgrows ⊢
    cases heffect with
    | none => exact hhome
    | create hlength hfirst => exact hhome.allocate hbounds hgrows
    | createScope => exact hhome.of_params_eq hbounds hgrows fun _ => rfl
    | assign hkind => exact hhome.assign hbounds hfits hkind
    | enter hopen houter => exact hhome
    | exit hcurrent => exact hhome
    | @declare s o hcurrent hfresh =>
      exact hhome.enlist hbounds hcurrent hfits hfresh (hplaced o rfl)
    | loadReference => exact (Program.reference.load_loads hbounds).paramsAtHome hhome

/-- **Parameters and their owners.** After any session, the routines list no parameters but those
that were made for them and are declared in their bodies, exactly if no accepted declaration put a
parameter into the list of a routine that it was not made for, or from another scope than the body.
A declaration does not look at the routine that the parameter was made for: what counts is the owner
of the current scope. -/
theorem paramsAtHome_iff_no_misplaced {limit : Nat} {steps : List Step}
    (hadmits : (initial limit).Admits steps) :
    ((initial limit).after steps).ParamsAtHome ↔
      ∀ i (hi : i < steps.length) o, steps[i] = .command (.declare o) →
        ¬ ((initial limit).after (steps.take i)).Misplaces o := by
  have hiff := (Reachable.initial limit).after_iff (P := ParamsAtHome)
    (fun t action => ∀ o, action = .command (.declare o) → ¬ t.Misplaces o)
    (fun h hfits => paramsAtHome_step_iff h hfits) hadmits
  rw [hiff, and_iff_right (paramsAtHome_initial limit)]

/-- A procedure has a second scope, made by hand. One of its parameters is declared in its body, and
the other in that scope. -/
def outside : List Step :=
  [.command (.create .procedure "p"), .command (.createScope ⟨7⟩ none),
   .command (.create (.parameter .byValue ⟨7⟩) "x"),
   .command (.create (.parameter .byValue ⟨7⟩) "y"), .command (.enter ⟨5⟩),
   .command (.declare ⟨8⟩), .command .exit, .command (.enter ⟨6⟩), .command (.declare ⟨9⟩)]

/-- The last declaration misplaces the second parameter, though it was made for the procedure that
lists it. -/
theorem paramsAtHome_iff_no_misplaced_outside : (initial 15).Admits outside ∧
    ((initial 15).after outside).params ⟨7⟩ = .ok [⟨8⟩, ⟨9⟩] ∧
    ¬ ((initial 15).after outside).ParamsAtHome := by
  have hadmits : (initial 15).Admits outside := by decide
  have hmisplaces : ((initial 15).after (outside.take 8)).Misplaces ⟨9⟩ :=
    ⟨⟨6⟩, by decide, by decide, by decide, by decide, by decide⟩
  refine ⟨hadmits, by decide, fun hhome => ?_⟩
  exact (paramsAtHome_iff_no_misplaced hadmits).mp hhome 8 (by decide) ⟨9⟩ rfl hmisplaces

/-- Two procedures, with a parameter that is made for the second and declared in the body of the
first. -/
def crossed : List Step :=
  [.command (.create .procedure "p"), .command (.create .procedure "q"),
   .command (.create (.parameter .byValue ⟨8⟩) "x"), .command (.enter ⟨5⟩),
   .command (.declare ⟨9⟩)]

theorem not_paramsAtHome_crossed : (initial 15).Admits crossed ∧
    ((initial 15).after crossed).params ⟨7⟩ = .ok [⟨9⟩] ∧
    (((initial 15).after crossed).object ⟨9⟩).attributes.owner? = some ⟨8⟩ ∧
    ¬ ((initial 15).after crossed).ParamsAtHome := by
  have hlist : ((initial 15).after crossed).params ⟨7⟩ = .ok [⟨9⟩] := by decide
  have howner : (((initial 15).after crossed).object ⟨9⟩).attributes.owner? = some ⟨8⟩ := by decide
  refine ⟨by decide, hlist, howner, fun hhome => ?_⟩
  obtain ⟨hmade, _⟩ := hhome ⟨7⟩ [⟨9⟩] hlist ⟨9⟩ (List.mem_singleton.mpr rfl)
  rw [howner] at hmade
  cases hmade

end Table

end BlockScope
