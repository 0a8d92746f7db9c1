import BlockScope.Proofs.Names.Interner
import BlockScope.Proofs.Predeclared.Sealed
import BlockScope.Proofs.Session.Numbering

namespace BlockScope.Table

variable {Store Symbol : Type}

/-- The names of the objects in the order of their creation. -/
def nameList (t : Table) : List String :=
  t.objects.toList.map Object.name

/-- The store that holds the names of the table. A name is put there when an object with that name
is created, and at no other time. -/
def store (t : Table) (names : Interner Store Symbol) : Store :=
  names.storeOf t.nameList

/-- The symbol that the object `o` was given at its creation, when the store had the names of the
older objects only. -/
def symbol (t : Table) (names : Interner Store Symbol) (o : ObjectId) : Symbol :=
  (names.intern (names.storeOf (t.nameList.take o.index)) (t.name o)).1

/-- The first object of a list that has the symbol of the name. No object has a name that the store
does not know. -/
def findSymbol? [DecidableEq Symbol] (t : Table) (names : Interner Store Symbol)
    (list : List ObjectId) (name : String) : Option ObjectId :=
  (names.get? (t.store names) name).bind fun symbol =>
    list.find? fun o => t.symbol names o == symbol

variable {t t' : Table} {names : Interner Store Symbol} {o p : ObjectId} {name : String}

private theorem length_nameList (t : Table) : t.nameList.length = t.objects.size := by
  simp [nameList]

private theorem nameList_allocate (b : Blueprint) (name : String) :
    (t.allocate b name).nameList = t.nameList ++ [name] := by
  simp [nameList, allocate]

private theorem nameList_eq_of_registry_eq (h : t'.registry = t.registry) :
    t'.nameList = t.nameList := by
  have hnames : t'.registry.map Prod.snd = t.registry.map Prod.snd := congrArg _ h
  unfold registry at hnames
  rw [List.map_map, List.map_map] at hnames
  exact hnames

/-- As long as names are added at the end, an object keeps its symbol. -/
private theorem symbol_eq_of_prefix (hlist : t.nameList <+: t'.nameList) (ho : t.HasObject o)
    (hname : t'.name o = t.name o) : t'.symbol names o = t.symbol names o := by
  obtain ⟨later, hlater⟩ := hlist
  have hle : o.index ≤ t.nameList.length := t.length_nameList ▸ Nat.le_of_lt ho
  unfold symbol
  rw [← hlater, List.take_append_of_le_length hle, hname]

/-- Of all that can happen to a table, only a creation reaches the store, which is given the name of
the new object, and the object keeps the symbol that comes of it. Older objects keep theirs. -/
theorem Transition.interns (h : t.Transition t') (names : Interner Store Symbol) :
    (t'.store names = t.store names ∨
      ∃ name, t'.store names = (names.intern (t.store names) name).2 ∧
        t'.symbol names t.nextObject = (names.intern (t.store names) name).1) ∧
      ∀ o, t.HasObject o → t'.symbol names o = t.symbol names o := by
  have hsame : t'.nameList = t.nameList →
      t'.store names = t.store names ∧ ∀ o, t.HasObject o → t'.symbol names o = t.symbol names o :=
    fun hlist => ⟨congrArg names.storeOf hlist,
      fun o ho => symbol_eq_of_prefix ⟨[], by simp [hlist]⟩ ho (h.name_eq ho)⟩
  cases h with
  | @create b name hfits hlength hfirst =>
    refine ⟨.inr ⟨name, ?_, ?_⟩, fun o ho => ?_⟩
    · unfold store
      rw [nameList_allocate, Interner.storeOf_concat]
    · have htake : (t.nameList ++ [name]).take t.nextObject.index = t.nameList :=
        List.take_left' t.length_nameList
      have hname : (t.allocate b name).name t.nextObject = name := by
        unfold Table.name
        rw [object_allocate, if_pos rfl]
      unfold symbol store
      rw [nameList_allocate, htake, hname]
    · have hlist := (nameList_allocate (t := t) b name).symm
      exact symbol_eq_of_prefix ⟨[name], hlist⟩ ho (name_allocate b name ho)
  | createScope howner houter => exact (hsame rfl).imp_left .inl
  | assign ho hkind =>
    exact (hsame (nameList_eq_of_registry_eq (registry_record _ _))).imp_left .inl
  | enter hs hopen houter => exact (hsame rfl).imp_left .inl
  | exit hcurrent => exact (hsame rfl).imp_left .inl
  | declare hcurrent ho hfresh =>
    exact (hsame (nameList_eq_of_registry_eq (registry_enlist _ _))).imp_left .inl

/-- The store knows the name of each object, by the symbol that the object was given. -/
private theorem HasObject.get?_store (ho : t.HasObject o) (hnames : names.Lawful) :
    names.get? (t.store names) (t.name o) = some (t.symbol names o) := by
  have hlt : o.index < t.objects.size := ho
  have hi : o.index < t.nameList.length := t.length_nameList.symm ▸ hlt
  have hname : t.nameList[o.index] = t.name o := by simp [nameList, Table.name, object, hlt]
  have hget := hnames.get?_storeOf_getElem hi
  rwa [hname] at hget

/-- Objects have the same symbol exactly if they have the same name, whenever they were created. -/
private theorem HasObject.symbol_eq_iff (ho : t.HasObject o) (hp : t.HasObject p)
    (hnames : names.Lawful) :
    t.symbol names o = t.symbol names p ↔ t.name o = t.name p := by
  have hget := ho.get?_store hnames
  have hget' := hp.get?_store hnames
  constructor
  · intro heq
    rw [heq] at hget
    exact hnames.eq_of_get? hget hget'
  · intro heq
    rw [heq, hget'] at hget
    exact (Option.some.inj hget).symm

/-- A search by symbols finds the first object that has the name. A name that the store does not
know is the name of no object. -/
private theorem findSymbol?_eq [DecidableEq Symbol] (hnames : names.Lawful) {list : List ObjectId}
    (hlist : ∀ o ∈ list, t.HasObject o) (name : String) :
    t.findSymbol? names list name = t.find? list name := by
  unfold findSymbol?
  cases hget : names.get? (t.store names) name with
  | none =>
    refine (List.find?_eq_none.mpr fun o ho heq => ?_).symm
    have hknown := (hlist o ho).get?_store hnames
    rw [eq_of_beq heq, hget] at hknown
    cases hknown
  | some symbol =>
    refine List.find?_congr fun o ho => ?_
    have hknown := (hlist o ho).get?_store hnames
    rw [Bool.eq_iff_iff, beq_iff_eq, beq_iff_eq]
    constructor
    · rintro rfl
      exact hnames.eq_of_get? hknown hget
    · rintro rfl
      exact Option.some.inj (hknown.symm.trans hget)

/-- The search by symbols along the blocks comes to an end, with the answer of the table. -/
theorem Reachable.resolves_iff [DecidableEq Symbol] (h : t.Reachable) (hnames : names.Lawful)
    (name : String) (found : Option ObjectId) :
    t.Resolves (fun list => t.findSymbol? names list name) t.current found ↔
      found = t.lookup? name := by
  have hscope (s : ScopeId) :
      t.findSymbol? names (t.scope s).objects name = t.find? (t.scope s).objects name :=
    findSymbol?_eq hnames
      (fun _ ho => (h.inBounds.scope s (hasScope_of_mem_objects ho)).objects _ ho) name
  have hglobals := findSymbol?_eq hnames h.inBounds.globals name
  rw [h.standsAt_chain.chain.resolves_iff, hglobals]
  simp only [hscope]
  exact Iff.rfl

/-- What a name means has been declared, and it is not the program. -/
theorem Reachable.registered_of_lookup? (h : t.Reachable) (hfound : t.lookup? name = some o) :
    (t.object o).registered ∧ t.program ≠ some o := by
  rw [h.singleOwner.registered_iff, mem_roots_object]
  obtain ⟨s, _, hlisted⟩ | hglobal := mem_of_lookup? hfound
  · refine ⟨.inr ⟨s, hlisted⟩, fun hprogram => ?_⟩
    exact timesDeclared_eq_zero_iff.mp (h.singleOwner.timesDeclared_root (.inl hprogram)) s hlisted
  · refine ⟨.inl (.inr hglobal), fun hprogram => ?_⟩
    have hroutine := h.isSealed.isRoutine_of_mem_globals hglobal
    rw [(h.singleOwner.program o).mpr hprogram] at hroutine
    cases hroutine

/-- The parameters that a predeclared routine begins with are declared in its body. -/
private theorem mem_objects_of_params_initial {limit : Nat} {r : ObjectId} {params : List ObjectId}
    (hr : r ∈ (initial limit).globals) (hparams : (initial limit).params r = .ok params)
    (ho : o ∈ params) :
    ∃ s, (initial limit).HasScope s ∧ o ∈ ((initial limit).scope s).objects := by
  rw [globals_initial] at hr
  simp only [List.mem_cons, List.not_mem_nil, or_false] at hr
  obtain rfl | rfl | rfl | rfl | rfl := hr <;>
    simp [Table.params, object, objects_initial, Object.params?, Attributes.params?] at hparams <;>
    subst hparams
  case inr.inr.inl =>
    exact ⟨⟨2⟩, by simp [hasScope_initial], by simpa [scope, scopes_initial] using ho⟩
  case inr.inr.inr.inl =>
    exact ⟨⟨3⟩, by simp [hasScope_initial], by simpa [scope, scopes_initial] using ho⟩
  all_goals cases ho

/-- No name means a parameter of a predeclared routine. -/
theorem Reachable.not_mem_params_of_lookup? (h : t.Reachable) (hfound : t.lookup? name = some o)
    {r : ObjectId} (hr : r ∈ t.globals) {params : List ObjectId}
    (hparams : t.params r = .ok params) : o ∉ params := by
  intro ho
  rw [h.isSealed.params_eq (h.isSealed.hasObject_of_mem_globals hr)] at hparams
  rw [h.isSealed.globals] at hr
  obtain ⟨s, hs, hlisted⟩ := mem_objects_of_params_initial hr hparams ho
  exact h.not_mem_contents_of_lookup? hfound hs hlisted

/-- What is known of an object that the name means while the scopes of the stack are entered: it has
the name and has been declared, in one of the scopes or among the predeclared routines, and it is
neither the program nor a parameter of a predeclared routine. -/
structure MeantBy (t : Table) (stack : List ScopeId) (name : String) (o : ObjectId) : Prop where
  named : t.name o = name
  registered : (t.object o).registered
  notTheProgram : t.program ≠ some o
  notAProgram : (t.object o).kind ≠ .program
  notPredeclaredParam : ∀ r ∈ t.globals, ∀ params, t.params r = .ok params → o ∉ params
  placed : o ∈ t.globals ∨ ∃ s ∈ stack, o ∈ (t.scope s).objects

/-- The search for the name by symbols, from the current scope outward, comes to an end. It finds
the first object that has the name in the lists of the scopes of the stack, one after the other, and
then among the predeclared routines. Objects share a symbol exactly if they share a name, and a
search changes nothing. -/
structure FindsFirst [DecidableEq Symbol] (names : Interner Store Symbol) (t : Table)
    (stack : List ScopeId) (name : String) : Prop where
  resolves : ∀ found, t.Resolves (fun list => t.findSymbol? names list name) t.current found ↔
    found = t.lookup? name
  chain : t.ChainFrom t.current stack
  first : t.lookup? name = ((stack.flatMap fun s => (t.scope s).objects) ++ t.globals).find?
    fun o => t.name o == name
  find : ∀ list, (∀ o ∈ list, t.HasObject o) →
    t.findSymbol? names list name = list.find? fun o => t.name o == name
  spelled : ∀ o, t.HasObject o →
    names.resolve? (t.store names) (t.symbol names o) = some (t.name o)
  symbols : ∀ o p, t.HasObject o → t.HasObject p →
    (t.symbol names o = t.symbol names p ↔ t.name o = t.name p)
  meaning : ∀ o, t.lookup? name = some o → t.MeantBy stack name o
  globals : t.globals = [⟨0⟩, ⟨1⟩, ⟨2⟩, ⟨4⟩, ⟨6⟩]
  lookupKeeps : t.step (.query (.lookup name)) = .accepted (.found (t.lookup? name)) t []
  findKeeps : ∀ list,
    t.step (.query (.find list name)) = .accepted (.found (t.find? list name)) t []

/-- **A name means its first match, innermost scope first,** after any session, along the scopes
that have been entered and not left. -/
theorem lookup?_first_match [DecidableEq Symbol] {limit : Nat} {steps : List Step}
    (hadmits : (initial limit).Admits steps) (hnames : names.Lawful) (name : String) :
    FindsFirst names ((initial limit).after steps) ((initial limit).stackAfter [] steps) name := by
  let t := (initial limit).after steps
  let stack := (initial limit).stackAfter [] steps
  have hreachable : t.Reachable := (Reachable.initial limit).after hadmits
  have hstands : t.StandsAt stack :=
    (standsAt_initial limit).after (initial_inBounds limit) hadmits
  have hchain : t.chain = stack := chain_eq hstands.chain hreachable.outerOlder hreachable.inBounds
  have hfirst := t.lookup?_eq_find? name
  rw [hchain] at hfirst
  have hmeaning (o : ObjectId) (hfound : t.lookup? name = some o) : t.MeantBy stack name o := by
    obtain ⟨hregistered, hprogram⟩ := hreachable.registered_of_lookup? hfound
    have hkind : (t.object o).kind ≠ .program :=
      fun hkind => hprogram ((hreachable.singleOwner.program o).mp hkind)
    refine ⟨?_, hregistered, hprogram, hkind,
      fun r hr params => hreachable.not_mem_params_of_lookup? hfound hr, ?_⟩
    · rw [hfirst] at hfound
      have hnamed := List.find?_some hfound
      exact eq_of_beq hnamed
    · rw [← hchain]
      exact (mem_of_lookup? hfound).symm
  exact {
    resolves := hreachable.resolves_iff hnames name
    chain := hstands.chain
    first := hfirst
    find := fun list hlist => findSymbol?_eq hnames hlist name
    spelled := fun o ho => hnames.resolve?_of_get? (ho.get?_store hnames)
    symbols := fun o p ho hp => ho.symbol_eq_iff hp hnames
    meaning := hmeaning
    globals := hreachable.isSealed.globals
    lookupKeeps := rfl
    findKeeps := fun _ => rfl }

/-- In a procedure of the reference program, a variable of the program is hidden by one of the same
name, which has the same symbol. -/
theorem lookup?_handmade : (initial 15).Admits handmade ∧
    ((initial 15).after handmade).symbol Interner.numbered ⟨11⟩ =
      ((initial 15).after handmade).symbol Interner.numbered ⟨17⟩ ∧
    (((initial 15).after handmade).Resolves
      (fun list => ((initial 15).after handmade).findSymbol? Interner.numbered list "v1")
      ((initial 15).after handmade).current (some ⟨17⟩)) ∧
    (((initial 15).after handmade).object ⟨17⟩).registered := by
  have hadmits : (initial 15).Admits handmade := by decide
  have hfound : ((initial 15).after handmade).lookup? "v1" = some ⟨17⟩ := by decide
  have hfirst := lookup?_first_match hadmits Interner.lawful_numbered "v1"
  refine ⟨hadmits, ?_, (hfirst.resolves _).mpr hfound.symm, (hfirst.meaning _ hfound).registered⟩
  exact (hfirst.symbols ⟨11⟩ ⟨17⟩ (by decide) (by decide)).mpr (by decide)

end BlockScope.Table
