import BlockScope.Proofs.Block.Lookup
import BlockScope.Proofs.Declarations.Program
import BlockScope.Proofs.Session.Refusal

namespace BlockScope

/-- No block declares a name twice. -/
def Forest.Distinct : Forest Heading → Prop
  | nil => True
  | cons h below after =>
    h.name ∉ after.roots.map Heading.name ∧ below.Distinct ∧ after.Distinct

namespace Table

/-- The names of the objects that are declared in a scope, in the order of declaration. -/
def namesIn (t : Table) (s : ScopeId) : List String :=
  (t.scope s).objects.map t.name

/-- No scope declares two objects of the same name. -/
def NamesDistinct (t : Table) : Prop :=
  ∀ s, (t.namesIn s).Nodup

/-- The step declares nothing, or an object whose name has been found to be fresh. -/
def ChecksFresh (t : Table) : Step → Prop
  | .command (.declare o) => t.checkFresh (t.name o) = .ok ()
  | _ => True

instance (t : Table) : (s : Step) → Decidable (t.ChecksFresh s)
  | .command (.declare _) => inferInstanceAs (Decidable (_ = _))
  | .command (.create ..) | .command (.createScope ..) | .command (.assign ..)
  | .command (.enter _) | .command .exit | .command .loadReference | .query _ => isTrue trivial

/-- Before each declaration of a session the name has been found to be fresh. -/
def DeclaresFresh (t : Table) : List Step → Prop
  | [] => True
  | s :: steps => t.ChecksFresh s ∧ (t.step s).table.DeclaresFresh steps

instance decidableDeclaresFresh (t : Table) :
    (steps : List Step) → Decidable (t.DeclaresFresh steps)
  | [] => isTrue trivial
  | s :: steps =>
    have := decidableDeclaresFresh (t.step s).table steps
    inferInstanceAs (Decidable (_ ∧ _))

variable {t t' : Table} {s u : ScopeId} {o : ObjectId} {name : String}

theorem findIn?_eq_none_iff : t.findIn? s name = none ↔ name ∉ t.namesIn s := by
  simp [findIn?, find?, namesIn]

private theorem checkFresh_eq_ok_iff :
    t.checkFresh name = .ok () ↔ ∃ s, t.current = some s ∧ name ∉ t.namesIn s := by
  unfold checkFresh
  cases hcurrent : t.current with
  | none => simp
  | some s =>
    simp only [Option.some.injEq, ← findIn?_eq_none_iff, exists_eq_left']
    cases t.findIn? s name <;> simp

private theorem InBounds.hasObject_of_mem_objects (h : t.InBounds)
    (hmem : o ∈ (t.scope s).objects) :
    t.HasObject o :=
  (h.scope s (hasScope_of_mem_objects hmem)).objects o hmem

/-- What keeps the list of a scope keeps the names in it, for objects keep theirs. -/
private theorem LeadsTo.namesIn_eq (h : t.LeadsTo t') (hbounds : t.InBounds)
    (hlist : (t'.scope s).objects = (t.scope s).objects) : t'.namesIn s = t.namesIn s := by
  unfold namesIn
  rw [hlist]
  exact List.map_congr_left fun o ho => h.name_eq (hbounds.hasObject_of_mem_objects ho)

theorem namesIn_allocate (h : t.InBounds) (b : Blueprint) (name : String) (u : ScopeId) :
    (t.allocate b name).namesIn u = t.namesIn u := by
  have hlist : ((t.allocate b name).scope u).objects = (t.scope u).objects := by
    rw [scope_allocate]
    split
    · rename_i hnew
      rw [hnew.2, scope_of_not_hasScope not_hasScope_nextScope]
      rfl
    · rfl
  unfold namesIn
  rw [hlist]
  exact List.map_congr_left fun o ho => name_allocate b name (h.hasObject_of_mem_objects ho)

private theorem namesIn_createScope (owner : ObjectId) (outer : Option ScopeId) (u : ScopeId) :
    (t.createScope owner outer).table.namesIn u = t.namesIn u := by
  have hlist : ((t.createScope owner outer).table.scope u).objects = (t.scope u).objects := by
    rw [scope_createScope]
    split
    · rename_i hnew
      rw [hnew, scope_of_not_hasScope not_hasScope_nextScope]
      rfl
    · rfl
  exact congrArg (List.map t.name) hlist

private theorem namesIn_record (o : ObjectId) (a : Assignment) (u : ScopeId) :
    (t.modifyObject o (·.assign a)).namesIn u = t.namesIn u :=
  List.map_congr_left fun p _ => name_assign o p a

/-- A declaration adds the name of the object to those of the scope that takes it. -/
theorem namesIn_enlist (s : ScopeId) (o : ObjectId) (u : ScopeId) : (t.enlist s o).namesIn u =
    if u = s ∧ t.HasScope s then t.namesIn u ++ [t.name o] else t.namesIn u := by
  have hnames : (t.enlist s o).name = t.name := funext (name_enlist s o)
  unfold namesIn
  rw [hnames, scope_enlist]
  split
  · simp [Scope.add]
  · rfl

theorem NamesDistinct.of_eq (h : t.NamesDistinct) (hsame : ∀ u, t'.namesIn u = t.namesIn u) :
    t'.NamesDistinct := by
  intro u
  rw [hsame]
  exact h u

theorem NamesDistinct.enlist (h : t.NamesDistinct) (hfresh : t.name o ∉ t.namesIn s) :
    (t.enlist s o).NamesDistinct := by
  intro u
  rw [namesIn_enlist]
  split
  · rename_i hsame
    rw [hsame.1]
    refine List.nodup_append.mpr ⟨h s, List.nodup_singleton _, fun first hfirst last hlast => ?_⟩
    rintro rfl
    rw [List.mem_singleton.mp hlast] at hfirst
    exact hfresh hfirst
  · exact h u

theorem namesDistinct_initial (limit : Nat) : (initial limit).NamesDistinct := by
  rintro ⟨i⟩
  by_cases hi : i < 5
  · interval_cases i <;> simp [namesIn, scope, scopes_initial]
  · have hnone : ¬ (initial limit).HasScope ⟨i⟩ := hi
    unfold namesIn
    rw [scope_of_not_hasScope hnone]
    exact List.nodup_nil

private theorem namesIn_prepare {h : Heading} (hbounds : t.InBounds) (u : ScopeId) :
    (t.prepare s h).namesIn u = t.namesIn u :=
  prepare_preserves (P := fun made => made.namesIn u = t.namesIn u)
    (namesIn_allocate hbounds _ h.name u) fun hbefore => (namesIn_record _ _ u).trans hbefore

/-- A later name that is neither the first one nor taken before is not taken by the first one. -/
private theorem not_mem_taken {taken : List String} {hd later : Heading}
    {below after : Forest Heading}
    (hname : hd.name ∉ after.roots.map Heading.name)
    (hfresh : ∀ hd' ∈ (Forest.cons hd below after).roots, hd'.name ∉ taken)
    (hlater : later ∈ after.roots) : later.name ∉ taken ++ [hd.name] := by
  intro hmem
  obtain htaken | hsame := List.mem_append.mp hmem
  · exact hfresh later (List.mem_cons_of_mem _ hlater) htaken
  · exact hname (List.mem_singleton.mp hsame ▸ List.mem_map_of_mem hlater)

namespace Takes

variable {hd : Heading}

/-- What is declared takes its name. -/
private theorem namesIn (htakes : t.Takes s hd) :
    (t.insert s hd).namesIn s = t.namesIn s ++ [hd.name] := by
  rw [insert, namesIn_enlist, if_pos ⟨rfl, hasScope_prepare htakes.hasScope⟩,
    namesIn_prepare htakes.inBounds, name_prepare]

private theorem namesDistinct (htakes : t.Takes s hd) (hfresh : hd.name ∉ t.namesIn s)
    (hnames : t.NamesDistinct) : (t.insert s hd).NamesDistinct := by
  refine (hnames.of_eq (namesIn_prepare htakes.inBounds)).enlist ?_
  rwa [name_prepare, namesIn_prepare htakes.inBounds]

/-- No name is taken in the body of a new routine. -/
private theorem namesIn_open (htakes : t.Takes s hd) (hbody : hd.kind.hasBody) :
    (t.insertOpen s hd).namesIn t.nextScope = [] := by
  rw [Table.namesIn, scope_insertOpen, htakes.scope_body hbody]
  rfl

end Takes

private theorem namesDistinct_moveTo (current : Option ScopeId) :
    { t with current }.NamesDistinct ↔ t.NamesDistinct :=
  Iff.rfl

private theorem namesIn_moveTo (current : Option ScopeId) :
    { t with current }.namesIn s = t.namesIn s :=
  rfl

/-- Loading declarations keeps names distinct if no block declares a name twice and the names are
not yet taken in the scope that is loaded into. -/
theorem Loads.namesDistinct {f : Forest Heading} {result : Except SemanticError Unit}
    (h : t.Loads s f result t') (hdistinct : f.Distinct)
    (hfresh : ∀ hd ∈ f.roots, hd.name ∉ t.namesIn s) (hnames : t.NamesDistinct) :
    t'.NamesDistinct := by
  induction h with
  | done | refused => exact hnames
  | plain htakes _ _ ih =>
    obtain ⟨hname, _, hlater⟩ := hdistinct
    refine ih hlater (fun hd hmem => ?_)
      (htakes.namesDistinct (hfresh _ List.mem_cons_self) hnames)
    rw [htakes.namesIn]
    exact not_mem_taken hname hfresh hmem
  | inside htakes hbody _ ih =>
    obtain ⟨_, hinside, _⟩ := hdistinct
    refine ih hinside (fun hd _ => ?_) ((namesDistinct_moveTo _).mpr
      (htakes.namesDistinct (hfresh _ List.mem_cons_self) hnames))
    rw [htakes.namesIn_open hbody]
    exact List.not_mem_nil
  | @routine t filled t' s hd below after result htakes hbody hbelow _ ihBelow ihAfter =>
    obtain ⟨hname, hinside, hlater⟩ := hdistinct
    have hopen := htakes.leadsTo_open hbody
    have hfilled := ihBelow hinside (fun hd _ => by simp [htakes.namesIn_open hbody])
      ((namesDistinct_moveTo _).mpr (htakes.namesDistinct (hfresh _ List.mem_cons_self) hnames))
    refine ihAfter hlater (fun hd hmem => ?_) ((namesDistinct_moveTo _).mpr hfilled)
    have hsame : filled.namesIn s = (t.insertOpen s _).namesIn s :=
      hbelow.leadsTo.namesIn_eq (htakes.inBounds.leadsTo hopen) (congrArg Scope.objects
        (hbelow.scope_eq (hopen.within.scope htakes.hasScope) htakes.hasScope.ne_nextScope))
    rw [namesIn_moveTo, hsame, insertOpen, namesIn_moveTo, htakes.namesIn]
    exact not_mem_taken hname hfresh hmem

/-- Loading a program no block of which declares a name twice keeps names distinct, whether or not
it gets to the end. -/
theorem LoadsProgram.namesDistinct {p : Program} {result : Except SemanticError ObjectId}
    (h : t.LoadsProgram p result t') (hdistinct : p.block.forest.Distinct)
    (hnames : t.NamesDistinct) : t'.NamesDistinct := by
  have hmade (htakes : t.TakesProgram p.name) : (t.allocate .program p.name).NamesDistinct :=
    hnames.of_eq (namesIn_allocate htakes.inBounds .program p.name)
  have hfresh : ∀ hd ∈ p.block.forest.roots, hd.name ∉ (t.openProgram p.name).namesIn t.nextScope :=
    fun hd _ => by simp [namesIn, scope_openProgram, scope_allocate_program]
  cases h with
  | refused => exact hnames
  | unopened htakes => exact hmade htakes
  | inside htakes _ hblock => exact hblock.namesDistinct hdistinct hfresh (hmade htakes)
  | done htakes _ hblock =>
    exact (namesDistinct_moveTo _).mpr (hblock.namesDistinct hdistinct hfresh (hmade htakes))

end Table

private theorem Program.reference_distinct : Program.reference.block.forest.Distinct := by
  simp [Program.reference, referenceFunction, referenceProcedure, Declarations.forest,
    Forest.Distinct, Forest.roots, Heading.name]

namespace Table

variable {t : Table} {s : ScopeId} {o : ObjectId} {steps : List Step}

/-- Only a declaration adds a name, and it adds a fresh one. -/
theorem NamesDistinct.step (h : t.NamesDistinct) (hbounds : t.InBounds) {action : Step}
    (hfresh : t.ChecksFresh action) : (t.step action).table.NamesDistinct := by
  have heffect := t.step_effect action
  generalize (t.step action).table = after at heffect ⊢
  cases heffect with
  | none => exact h
  | @create b name hlength hfirst => exact h.of_eq (namesIn_allocate hbounds b name)
  | @createScope owner outer => exact h.of_eq (namesIn_createScope owner outer)
  | @assign o a hkind => exact h.of_eq (namesIn_record o a)
  | enter hopen houter => exact h
  | exit hcurrent => exact h
  | declare hcurrent hregistered =>
    obtain ⟨u, hu, hname⟩ := checkFresh_eq_ok_iff.mp hfresh
    obtain rfl := Option.some.inj (hcurrent.symm.trans hu)
    exact h.enlist hname
  | loadReference =>
    exact (Program.reference.load_loads hbounds).namesDistinct Program.reference_distinct h

theorem NamesDistinct.after (h : t.NamesDistinct) (hbounds : t.InBounds)
    (hadmits : t.Admits steps) (hfresh : t.DeclaresFresh steps) :
    (t.after steps).NamesDistinct := by
  induction steps generalizing t with
  | nil => exact h
  | cons action steps ih =>
    exact ih (h.step hbounds hfresh.1) (hbounds.leadsTo (step_leadsTo hbounds hadmits.1)) hadmits.2
      hfresh.2

theorem DeclaresFresh.take (h : t.DeclaresFresh steps) (i : Nat) :
    t.DeclaresFresh (steps.take i) := by
  induction steps generalizing t i with
  | nil =>
    rw [List.take_nil]
    trivial
  | cons action steps ih =>
    cases i with
    | zero => trivial
    | succ i => exact ⟨h.1, ih h.2 i⟩

end Table

end BlockScope
