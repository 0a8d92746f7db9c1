import BlockScope.Proofs.Block.Lookup

namespace BlockScope.Table

variable {t t' : Table} {stack : List ScopeId} {o : ObjectId} {s : ScopeId}

/-- Wherever a transition leads, a stack of open scopes stands for the pointer. -/
theorem StandsAt.transition (h : t.StandsAt stack) (hbounds : t.InBounds)
    (hstep : t.Transition t') : ∃ stack, t'.StandsAt stack := by
  have hlater := hstep.continues
  cases hstep with
  | create name hfits hlength hfirst => exact ⟨stack, h.stays hbounds hlater rfl⟩
  | createScope howner houter => exact ⟨stack, h.stays hbounds hlater rfl⟩
  | assign ho hkind => exact ⟨stack, h.stays hbounds hlater rfl⟩
  | enter hs hopen houter => exact ⟨_, h.push hopen houter⟩
  | exit hcurrent => exact ⟨_, h.pop hcurrent⟩
  | declare hcurrent ho hfresh => exact ⟨stack, h.stays hbounds hlater (current_enlist _ _)⟩

/-- Each scope of a new table belongs to a predeclared routine. -/
private theorem owner_mem_globals_initial (limit : Nat) (hs : (initial limit).HasScope s) :
    ((initial limit).scope s).owner ∈ (initial limit).globals := by
  obtain ⟨i⟩ := s
  have hlt : i < 5 := hs
  interval_cases i <;> simp [scope, scopes_initial, globals_initial]

/-- Of the objects of a new table, the predeclared ones are the routines. -/
private theorem isRoutine_initial_iff (limit : Nat) (ho : (initial limit).HasObject o) :
    ((initial limit).object o).kind.isRoutine ↔ o ∈ (initial limit).globals := by
  obtain ⟨i⟩ := o
  have hlt : i < 7 := ho
  interval_cases i <;> simp [object, objects_initial, globals_initial, Object.kind,
    Attributes.kind, Kind.isRoutine]

/-- What a table began with is as it was, but for the types recorded on the objects. -/
structure Sealed (t : Table) : Prop extends (initial t.maxIdentLength).Within t where
  globals : t.globals = (initial t.maxIdentLength).globals
  name : ∀ o, (initial t.maxIdentLength).HasObject o → t.name o = (initial t.maxIdentLength).name o
  bare : ∀ o, (initial t.maxIdentLength).HasObject o →
    (t.object o).attributes.bare = ((initial t.maxIdentLength).object o).attributes.bare
  sameScope : ∀ s, (initial t.maxIdentLength).HasScope s →
    t.scope s = (initial t.maxIdentLength).scope s

theorem sealed_initial (limit : Nat) : (initial limit).Sealed :=
  ⟨⟨id, id⟩, rfl, fun _ _ => rfl, fun _ _ => rfl, fun _ _ => rfl⟩

namespace Sealed

/-- The kind of an object is not among the things that are recorded. -/
theorem kind_eq (h : t.Sealed) (ho : (initial t.maxIdentLength).HasObject o) :
    (t.object o).kind = ((initial t.maxIdentLength).object o).kind := by
  have hbare := congrArg Attributes.kind (h.bare o ho)
  rw [Attributes.kind_bare, Attributes.kind_bare] at hbare
  exact hbare

theorem hasObject_of_mem_globals (h : t.Sealed) (ho : o ∈ t.globals) :
    (initial t.maxIdentLength).HasObject o := by
  rw [h.globals] at ho
  exact (initial_inBounds _).globals o ho

theorem isRoutine_iff (h : t.Sealed) (ho : (initial t.maxIdentLength).HasObject o) :
    (t.object o).kind.isRoutine ↔ o ∈ t.globals := by
  rw [h.kind_eq ho, h.globals]
  exact isRoutine_initial_iff _ ho

theorem isRoutine_of_mem_globals (h : t.Sealed) (ho : o ∈ t.globals) :
    (t.object o).kind.isRoutine :=
  (h.isRoutine_iff (h.hasObject_of_mem_globals ho)).mpr ho

/-- A declaration in an open scope reaches nothing that was there at the beginning. -/
theorem enlist (h : t.Sealed) (hopen : (t.scope s).owner ∉ t.globals) :
    (t.enlist s o).Sealed := by
  have hlimit : (t.enlist s o).maxIdentLength = t.maxIdentLength := by
    unfold Table.enlist listParam
    split <;> rfl
  constructor
  case toWithin =>
    rw [hlimit]
    exact ⟨fun hp => hasObject_enlist.mpr (h.object hp), fun hu => hasScope_enlist.mpr (h.scope hu)⟩
  all_goals rw [hlimit]
  case globals =>
    rw [globals_enlist]
    exact h.globals
  case name =>
    intro p hp
    rw [name_enlist]
    exact h.name p hp
  case bare =>
    intro p hp
    rw [attributes_enlist]
    split
    · rename_i hjoins
      have hlocal : p ∉ t.globals := hjoins.2.1 ▸ hopen
      have hroutine : (t.object p).kind.isRoutine = false := by
        rw [← Bool.not_eq_true, h.isRoutine_iff hp]
        exact hlocal
      rw [Attributes.addParam_eq_self hroutine]
      exact h.bare p hp
    · exact h.bare p hp
  case sameScope =>
    intro u hu
    rw [scope_enlist]
    split
    · rename_i hsame
      have howner := owner_mem_globals_initial _ hu
      rw [← h.sameScope u hu, ← h.globals, hsame.1] at howner
      exact absurd howner hopen
    · exact h.sameScope u hu

theorem transition (h : t.Sealed) (hstands : t.StandsAt stack) (hstep : t.Transition t') :
    t'.Sealed := by
  cases hstep with
  | create name hfits hlength hfirst =>
    refine ⟨⟨fun hp => hasObject_allocate.mpr (.inl (h.object hp)),
      fun hs => hasScope_allocate.mpr (.inl (h.scope hs))⟩, h.globals, fun p hp => ?_,
      fun p hp => ?_, fun u hu => ?_⟩
    · exact (name_allocate _ name (h.object hp)).trans (h.name p hp)
    · rw [(h.object hp).object_allocate]
      exact h.bare p hp
    · exact ((h.scope hu).scope_allocate _ name).trans (h.sameScope u hu)
  | createScope howner houter =>
    refine ⟨⟨h.object, fun hs => hasScope_createScope.mpr (.inl (h.scope hs))⟩, h.globals, h.name,
      h.bare, fun u hu => ?_⟩
    rw [scope_createScope, if_neg (h.scope hu).ne_nextScope]
    exact h.sameScope u hu
  | assign ho hkind =>
    refine ⟨⟨fun hp => hasObject_modifyObject.mpr (h.object hp), h.scope⟩, h.globals,
      fun p hp => ?_, fun p hp => ?_, h.sameScope⟩
    · exact (name_assign _ p _).trans (h.name p hp)
    · rw [bare_assign]
      exact h.bare p hp
  | enter hs hopen houter => exact ⟨⟨h.object, h.scope⟩, h.globals, h.name, h.bare, h.sameScope⟩
  | exit hcurrent => exact ⟨⟨h.object, h.scope⟩, h.globals, h.name, h.bare, h.sameScope⟩
  | declare hcurrent ho hfresh =>
    exact h.enlist (hstands.isOpen _ (List.mem_of_head? (hstands.head?_eq.trans hcurrent)))

end Sealed

theorem Reachable.isSealed (h : t.Reachable) : t.Sealed := by
  have hboth := h.invariant (P := fun t => (∃ stack, t.StandsAt stack) ∧ t.Sealed)
    (fun limit => ⟨⟨[], standsAt_initial limit⟩, sealed_initial limit⟩)
    (fun hbounds hstep ⟨⟨_, hstands⟩, hsealed⟩ =>
      ⟨hstands.transition hbounds hstep, hsealed.transition hstands hstep⟩)
  exact hboth.2

namespace Sealed

theorem bodyScope_eq (h : t.Sealed) (ho : (initial t.maxIdentLength).HasObject o) :
    t.bodyScope o = (initial t.maxIdentLength).bodyScope o := by
  have hbare := congrArg Attributes.body? (h.bare o ho)
  rw [Attributes.body?_bare, Attributes.body?_bare] at hbare
  have hbody : (t.object o).body? = ((initial t.maxIdentLength).object o).body? := hbare
  unfold bodyScope mismatch
  rw [hbody, h.name o ho, h.kind_eq ho]

theorem params_eq (h : t.Sealed) (ho : (initial t.maxIdentLength).HasObject o) :
    t.params o = (initial t.maxIdentLength).params o := by
  have hbare := congrArg Attributes.params? (h.bare o ho)
  rw [Attributes.params?_bare, Attributes.params?_bare] at hbare
  have hparams : (t.object o).params? = ((initial t.maxIdentLength).object o).params? := hbare
  unfold params mismatch
  rw [hparams, h.name o ho, h.kind_eq ho]

private theorem mode?_eq (h : t.Sealed) (ho : (initial t.maxIdentLength).HasObject o) :
    (t.object o).attributes.mode? =
      ((initial t.maxIdentLength).object o).attributes.mode? := by
  have hbare := congrArg Attributes.mode? (h.bare o ho)
  rwa [Attributes.mode?_bare, Attributes.mode?_bare] at hbare

end Sealed

/-- No name may be assigned to that means a predeclared routine, for the body of none of them is
ever current. -/
theorem Reachable.not_mem_globals_of_checkLValue (h : t.Reachable) {name : String}
    (hok : t.checkLValue name = .ok o) : o ∉ t.globals := by
  intro hglobal
  have hroutine := h.isSealed.isRoutine_of_mem_globals hglobal
  obtain ⟨_, hassignable⟩ := checkLValue_eq_ok_iff.mp hok
  obtain ⟨s, hcurrent, rfl⟩ := current_of_isAssignable hassignable hroutine
  have hchain := h.standsAt_chain
  exact hchain.isOpen s (List.mem_of_head? (hchain.head?_eq.trans hcurrent)) hglobal

/-- No name means anything that the bodies of the predeclared routines held at the beginning. -/
theorem Reachable.not_mem_contents_of_lookup? (h : t.Reachable) {name : String}
    (hfound : t.lookup? name = some o) (hs : (Table.initial t.maxIdentLength).HasScope s) :
    o ∉ ((Table.initial t.maxIdentLength).scope s).objects := by
  have hcontents := h.isSealed.sameScope s hs
  have hsealed : (t.scope s).owner ∈ t.globals := by
    rw [hcontents, h.isSealed.globals]
    exact owner_mem_globals_initial _ hs
  rw [← hcontents]
  exact h.not_mem_objects_of_lookup? hfound hsealed

/-- No scope that is entered belongs to a predeclared routine. Their names, kinds, bodies and
parameters are those of a new table, and so are the lists of their bodies and the names and modes of
their parameters. Neither a predeclared routine nor a parameter of one can be assigned to, whatever
the name. -/
structure Unextended (t : Table) : Prop where
  chain : t.ChainFrom t.current t.chain
  notEntered : ∀ s ∈ t.chain, (t.scope s).owner ∉ t.globals
  globals : t.globals = [⟨0⟩, ⟨1⟩, ⟨2⟩, ⟨4⟩, ⟨6⟩]
  names : t.globals.map t.name = ["READC", "READI", "WRITEI", "WRITEC", "WRITELN"]
  kinds : (t.globals.map fun o => (t.object o).kind) =
    [.function, .function, .procedure, .procedure, .procedure]
  bodies : t.globals.map t.bodyScope = [.ok ⟨0⟩, .ok ⟨1⟩, .ok ⟨2⟩, .ok ⟨3⟩, .ok ⟨4⟩]
  params : t.globals.map t.params = [.ok [], .ok [], .ok [⟨3⟩], .ok [⟨5⟩], .ok []]
  lists : ([⟨0⟩, ⟨1⟩, ⟨2⟩, ⟨3⟩, ⟨4⟩].map fun s => (t.scope s).objects) = [[], [], [⟨3⟩], [⟨5⟩], []]
  paramNames : [⟨3⟩, ⟨5⟩].map t.name = ["i", "ch"]
  paramModes : ([⟨3⟩, ⟨5⟩].map fun o => ((t.object o).kind, (t.object o).attributes.mode?)) =
    [(.parameter, some .byValue), (.parameter, some .byValue)]
  notAssigned : ∀ name o, t.checkLValue name = .ok o → o ∉ t.globals ∧ o ≠ ⟨3⟩ ∧ o ≠ ⟨5⟩

/-- **The predeclared routines cannot be extended,** whatever a session does. -/
theorem Reachable.predeclared_unextended (h : t.Reachable) : t.Unextended := by
  have hsealed := h.isSealed
  have hroutine : ∀ o ∈ t.globals, (Table.initial t.maxIdentLength).HasObject o :=
    fun _ => hsealed.hasObject_of_mem_globals
  have hparam : ∀ o ∈ [⟨3⟩, ⟨5⟩], (Table.initial t.maxIdentLength).HasObject o := by
    simp [hasObject_initial]
  have hbody : ∀ s ∈ [⟨0⟩, ⟨1⟩, ⟨2⟩, ⟨3⟩, ⟨4⟩], (Table.initial t.maxIdentLength).HasScope s := by
    simp [hasScope_initial]
  constructor
  case chain => exact h.standsAt_chain.chain
  case notEntered => exact h.standsAt_chain.isOpen
  case globals => exact hsealed.globals
  case names =>
    rw [List.map_congr_left fun o ho => hsealed.name o (hroutine o ho), hsealed.globals]
    simp [globals_initial, name, object, objects_initial]
  case kinds =>
    rw [List.map_congr_left fun o ho => hsealed.kind_eq (hroutine o ho), hsealed.globals]
    simp [globals_initial, object, objects_initial, Object.kind, Attributes.kind]
  case bodies =>
    rw [List.map_congr_left fun o ho => hsealed.bodyScope_eq (hroutine o ho), hsealed.globals]
    simp [globals_initial, bodyScope, object, objects_initial, Object.body?, Attributes.body?]
  case params =>
    rw [List.map_congr_left fun o ho => hsealed.params_eq (hroutine o ho), hsealed.globals]
    simp [globals_initial, Table.params, object, objects_initial, Object.params?,
      Attributes.params?]
  case lists =>
    rw [List.map_congr_left fun s hs => congrArg Scope.objects (hsealed.sameScope s (hbody s hs))]
    simp [scope, scopes_initial]
  case paramNames =>
    rw [List.map_congr_left fun o ho => hsealed.name o (hparam o ho)]
    simp [name, object, objects_initial]
  case paramModes =>
    rw [List.map_congr_left fun o ho => congrArg₂ Prod.mk (hsealed.kind_eq (hparam o ho))
      (hsealed.mode?_eq (hparam o ho))]
    simp [object, objects_initial, Object.kind, Attributes.kind, Attributes.mode?]
  case notAssigned =>
    intro name o hok
    have hfound := (checkLValue_eq_ok_iff.mp hok).1
    refine ⟨h.not_mem_globals_of_checkLValue hok, ?_, ?_⟩
    · rintro rfl
      exact h.not_mem_contents_of_lookup? hfound (hbody ⟨2⟩ (by simp)) (List.mem_singleton.mpr rfl)
    · rintro rfl
      exact h.not_mem_contents_of_lookup? hfound (hbody ⟨3⟩ (by simp)) (List.mem_singleton.mpr rfl)

/-- A session that tries to get at the predeclared routines: by a scope for one of them, a scope
inside the body of one, a scope for a parameter of one, which can be entered, with a parameter for
one of them declared there, and by a new declaration and a new type of the old parameter. -/
def tampering : List Step :=
  [.command (.create .program "P"), .command (.enter ⟨5⟩),
   .command (.createScope ⟨2⟩ (some ⟨5⟩)), .command (.enter ⟨6⟩),
   .command (.createScope ⟨7⟩ (some ⟨2⟩)), .command (.enter ⟨2⟩), .command (.enter ⟨7⟩),
   .command (.createScope ⟨3⟩ (some ⟨5⟩)), .command (.enter ⟨8⟩),
   .command (.create (.parameter .byReference ⟨2⟩) "i"), .command (.declare ⟨8⟩),
   .command (.declare ⟨3⟩), .command (.assign ⟨3⟩ (.parameter .char))]

theorem predeclared_unextended_tampering : ((initial 15).after tampering).Reachable ∧
    ((initial 15).after tampering).chain = [⟨8⟩, ⟨5⟩] ∧
    ((initial 15).after tampering).globals.map ((initial 15).after tampering).params =
      [.ok [], .ok [], .ok [⟨3⟩], .ok [⟨5⟩], .ok []] ∧
    ((initial 15).after tampering).checkLValue "i" = .ok ⟨8⟩ ∧
    ((initial 15).after tampering).checkLValue "READI" ≠ .ok ⟨1⟩ := by
  have hreachable : ((initial 15).after tampering).Reachable :=
    (Reachable.initial 15).after (by decide)
  have hkept := hreachable.predeclared_unextended
  refine ⟨hreachable, by decide, hkept.params, by decide,
    fun hok => (hkept.notAssigned "READI" ⟨1⟩ hok).1 ?_⟩
  simp [hkept.globals]

end BlockScope.Table
