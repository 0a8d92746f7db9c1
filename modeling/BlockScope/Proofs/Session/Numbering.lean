import BlockScope.Proofs.Block.Chain
import BlockScope.Proofs.Declarations.Headings
import BlockScope.Proofs.Ownership.Forest
import BlockScope.Proofs.Session.Refusal

namespace BlockScope

/-- The objects that the declarations make, by kind and name, in the order of their creation. A
routine comes before the objects of its body. -/
def Declarations.made : Declarations → List (Kind × String)
  | .done => []
  | .constant name _ rest => (.constant, name) :: rest.made
  | .alias name _ rest => (.alias, name) :: rest.made
  | .var name _ rest => (.var, name) :: rest.made
  | .parameter name _ _ rest => (.parameter, name) :: rest.made
  | .function name _ body rest => (.function, name) :: (body.made ++ rest.made)
  | .procedure name body rest => (.procedure, name) :: (body.made ++ rest.made)

/-- The objects that loading the program makes, given its result. Where a scope is current, the
program is made before it turns out that its body cannot be entered. -/
def Program.made {α : Type} (p : Program) : Except SemanticError α → List (Kind × String)
  | .ok _ => (.program, p.name) :: p.block.made
  | .error .unbalancedBlock => [(.program, p.name)]
  | .error _ => []

/-- The objects that the step makes, given its result. -/
def Step.made : Step → Except SemanticError Reply → List (Kind × String)
  | command (.create b name), .ok _ => [(b.kind, name)]
  | command .loadReference, result => Program.reference.made result
  | _, _ => []

namespace Table

/-- The kinds and names of all objects, in the order of their creation. -/
def registry (t : Table) : List (Kind × String) :=
  t.objects.toList.map fun o => (o.kind, o.name)

/-- The objects that a session makes. -/
def madeDuring (t : Table) : List Step → List (Kind × String)
  | [] => []
  | s :: steps => s.made (t.step s).result ++ (t.step s).table.madeDuring steps

/-- The second table is the first with one more object and, if that has a body, one more scope:
the body, which is nested in the current scope unless it is the program's. -/
structure Adds (t : Table) (b : Blueprint) (name : String) (t' : Table) : Prop where
  object : ∃ made, t'.objects = t.objects.push made ∧ made.kind = b.kind ∧ made.name = name
  body : b.kind.hasBody → t'.bodyScope ⟨t.objects.size⟩ = .ok ⟨t.scopes.size⟩ ∧
    t'.scopes = t.scopes.push
      ⟨[], ⟨t.objects.size⟩, if b.kind = .program then none else t.current⟩
  bodiless : ¬ b.kind.hasBody → t'.scopes = t.scopes

variable {t : Table} {o : ObjectId}

theorem length_registry (t : Table) : t.registry.length = t.objects.size := by
  simp [registry]

private theorem HasObject.getElem?_registry (ho : t.HasObject o) :
    t.registry[o.index]? = some ((t.object o).kind, t.name o) := by
  have hlt : o.index < t.objects.size := ho
  simp [registry, Table.name, object, hlt]

theorem registry_allocate (b : Blueprint) (name : String) :
    (t.allocate b name).registry = t.registry ++ [(b.kind, name)] := by
  simp [registry, allocate, Object.kind]

/-- A heading names the object and shows what kind it is. -/
theorem registry_eq_map_headings (t : Table) :
    t.registry = t.headings.map fun h => (h.kind, h.name) := by
  simp [registry, headings, Object.kind_heading, Object.name_heading]

theorem registry_enlist (s : ScopeId) (o : ObjectId) : (t.enlist s o).registry = t.registry := by
  rw [registry_eq_map_headings, headings_enlist, ← registry_eq_map_headings]

theorem registry_record (o : ObjectId) (a : Assignment) :
    (t.modifyObject o (·.assign a)).registry = t.registry := by
  have hsame := t.map_modifyObject (g := fun p : Object => (p.kind, p.name)) o
    (f := (·.assign a)) fun p => by simp [Object.kind, Object.assign]
  unfold registry
  rw [← Array.toList_map, hsame, Array.toList_map]

end Table

open Table

/-- The objects that are made are those that the headings show. -/
private theorem Declarations.made_eq_map_headings (d : Declarations) :
    d.made = d.headings.map fun h => (h.kind, h.name) := by
  induction d with
  | done => rfl
  | constant name value rest ih => exact congrArg _ ih
  | «alias» name actual rest ih => exact congrArg _ ih
  | var name ty rest ih => exact congrArg _ ih
  | parameter name mode ty rest ih => exact congrArg _ ih
  | function name result body rest ihBody ihRest =>
    simp [made, headings, ihBody, ihRest, Heading.kind, Heading.name]
  | procedure name body rest ihBody ihRest =>
    simp [made, headings, ihBody, ihRest, Heading.kind, Heading.name]

/-- A program that is loaded to its end has made its objects in the order in which they are
written. -/
private theorem Program.registry_load_of_ok {p : Program} {t : Table} {o : ObjectId}
    (h : t.InBounds)
    (ho : (p.load t).result = .ok o) :
    (p.load t).table.registry = t.registry ++ (.program, p.name) :: p.block.made := by
  rw [registry_eq_map_headings, p.headings_load h ho, List.map_append, ← registry_eq_map_headings,
    p.block.made_eq_map_headings]
  rfl

/-- A program that is loaded to its end is the first object that was made. -/
theorem Program.result_load {p : Program} {t : Table} {o : ObjectId} (h : t.InBounds)
    (ho : (p.load t).result = .ok o) : o = t.nextObject := by
  have hloads := p.load_loads h
  generalize (p.load t).result = result, (p.load t).table = t' at hloads ho
  cases hloads with
  | refused | unopened | inside => cases ho
  | done => exact (Except.ok.inj ho).symm

private theorem Program.made_map {α β : Type} (p : Program) (f : α → β)
    (result : Except SemanticError α) : p.made (result.map f) = p.made result := by
  cases result with
  | ok a => rfl
  | error e => cases e <;> rfl

/-- A program whose name is its longest is loaded to its end, or it is created and goes no further,
or not even that. Its result tells which. -/
theorem Program.registry_load {p : Program} {t : Table} (h : t.InBounds)
    (hlongest : p.NamedLongest) :
    (p.load t).table.registry = t.registry ++ p.made (p.load t).result := by
  obtain ⟨e, hcreate, hrefused⟩ | ⟨hresult, htable⟩ | ⟨_, ⟨o, hload⟩, _⟩ := p.load_cases h hlongest
  · have hobjection : t.Objection (.create .program p.name) e := by
      refine (result_eq_error_iff rfl).mp ?_
      rw [perform, hcreate]
      rfl
    have hnone : p.made (Except.error e : Except SemanticError ObjectId) = [] := by
      cases hobjection <;> rfl
    rw [hrefused]
    change t.registry = t.registry ++ p.made (Except.error e : Except SemanticError ObjectId)
    rw [hnone, List.append_nil]
  · rw [hresult, htable]
    exact registry_allocate .program p.name
  · rw [hload]
    exact registry_load_of_ok h hload

namespace Table

variable {t : Table} {s : Step}

/-- Of the single operations, only a creation makes an object. -/
private theorem registry_step_of_not_create (hcreate : ∀ b name, s ≠ .command (.create b name))
    (hload : s ≠ .command .loadReference) : (t.step s).table.registry = t.registry := by
  have heffect := t.step_effect s
  generalize (t.step s).table = after at heffect ⊢
  cases heffect with
  | none => rfl
  | @create b name hlength hfirst => exact absurd rfl (hcreate b name)
  | createScope => rfl
  | @assign o a hkind => exact registry_record o a
  | enter hopen houter => rfl
  | exit hcurrent => rfl
  | @declare u o hcurrent hfresh => exact registry_enlist u o
  | loadReference => exact absurd rfl hload

/-- The registry grows by what the step makes. -/
theorem registry_step (h : t.InBounds) (s : Step) :
    (t.step s).table.registry = t.registry ++ s.made (t.step s).result := by
  cases s with
  | query q => exact (List.append_nil _).symm
  | command c =>
    cases c with
    | create b name =>
      obtain ⟨e, hrefused⟩ | ⟨haccepted, _⟩ := t.create_cases b name
      · rw [step, perform, hrefused]
        exact (List.append_nil _).symm
      · rw [step, perform, haccepted]
        exact registry_allocate b name
    | loadReference =>
      have hload := Program.registry_load (p := .reference) h (by decide)
      rw [← Program.reference.made_map Reply.object] at hload
      exact hload
    | _ =>
      refine (registry_step_of_not_create ?_ ?_).trans (List.append_nil _).symm
      · simp
      · simp

/-- What a session has made stands behind what was there before, in the order of creation. -/
theorem registry_after (h : t.InBounds) {steps : List Step} (hadmits : t.Admits steps) :
    (t.after steps).registry = t.registry ++ t.madeDuring steps := by
  induction steps generalizing t with
  | nil => exact (List.append_nil _).symm
  | cons s steps ih =>
    have hrest := ih (h.leadsTo (step_leadsTo h hadmits.1)) hadmits.2
    rw [madeDuring, ← List.append_assoc, ← registry_step h s]
    exact hrest

/-- An accepted step that makes objects answers with the first of them. -/
theorem reply_of_made (h : t.InBounds) {reply : Reply} (hresult : (t.step s).result = .ok reply)
    (hmade : s.made (t.step s).result ≠ []) : reply = .object t.nextObject := by
  cases s with
  | query q => exact absurd rfl hmade
  | command c =>
    cases c with
    | create b name =>
      obtain ⟨e, hrefused⟩ | ⟨haccepted, _⟩ := t.create_cases b name
      · rw [step, perform, hrefused] at hresult
        cases hresult
      · rw [step, perform, haccepted] at hresult
        exact (Except.ok.inj hresult).symm
    | loadReference =>
      have hload : (Program.reference.load t).result.map Reply.object = .ok reply := hresult
      cases hanswer : (Program.reference.load t).result with
      | error e =>
        rw [hanswer] at hload
        cases hload
      | ok o =>
        rw [hanswer] at hload
        rw [← Program.result_load h hanswer]
        exact (Except.ok.inj hload).symm
    | _ => exact absurd rfl hmade

private theorem adds_allocate (b : Blueprint) (name : String) :
    t.Adds b name (t.allocate b name) := by
  refine ⟨⟨_, rfl, kind_newAttributes b, rfl⟩, fun hbody => ⟨?_, ?_⟩, fun hbody => ?_⟩
  · exact bodyScope_eq_ok_iff.mpr (body?_allocate name hbody)
  · simp [allocate, newScopes, hbody, nextObject]
  · simp [allocate, newScopes, hbody]

/-- A creation is refused without a trace, or else it adds the next object. -/
theorem create_adds (t : Table) (b : Blueprint) (name : String) :
    (∃ e, t.create b name = .refused e t) ∨
      ∃ t', t.create b name = .accepted ⟨t.objects.size⟩ t' [] ∧ t.Adds b name t' := by
  obtain hrefused | ⟨haccepted, _⟩ := t.create_cases b name
  · exact .inl hrefused
  · exact .inr ⟨t.allocate b name, haccepted, adds_allocate b name⟩

/-- The names of all objects but the predeclared ones keep to the limit. -/
def NamesLimited (t : Table) : Prop :=
  ∀ o, t.HasObject o → 7 ≤ o.index → (t.name o).length ≤ t.maxIdentLength

theorem NamesLimited.transition {t' : Table} (hstep : t.Transition t') (h : t.NamesLimited) :
    t'.NamesLimited := by
  intro o ho hlater
  rw [hstep.continues.limit]
  cases hstep with
  | create name hfits hlength hfirst =>
    obtain hold | rfl := hasObject_allocate.mp ho
    · rw [name_allocate _ name hold]
      exact h o hold hlater
    · unfold Table.name
      rw [object_allocate, if_pos rfl]
      exact hlength
  | createScope howner houter => exact h o ho hlater
  | assign hp hkind =>
    rw [name_assign]
    exact h o (hasObject_modifyObject.mp ho) hlater
  | enter hs hopen houter => exact h o ho hlater
  | exit hcurrent => exact h o ho hlater
  | declare hcurrent hp hfresh =>
    rw [name_enlist]
    exact h o (hasObject_enlist.mp ho) hlater

theorem Reachable.namesLimited (h : t.Reachable) : t.NamesLimited :=
  h.invariant (fun _ _ ho hlater => absurd ho (Nat.not_lt_of_le hlater))
    fun _ hstep hbefore => hbefore.transition hstep

private theorem length_registry_initial (limit : Nat) : (initial limit).registry.length = 7 :=
  rfl

/-- What the handles of the table after a session are worth. None that is stored anywhere leads past
the end of the objects or scopes, and they fit into 32 bits while there are no more than 2^32 of
either. The scope around a scope is older, and each object that has a body owns it alone. Objects
are numbered from 7 on in the order in which the session makes them, and the answer to a creation is
the number. An accepted creation adds one object and, if that has a body, one scope; a refused one
adds nothing. Names keep to the limit, but for the predeclared ones. -/
structure DenselyNumbered (limit : Nat) (steps : List Step) (t : Table)
    (made : List (Kind × String)) : Prop where
  inBounds : t.InBounds
  objectFits : t.objects.size ≤ 2 ^ 32 → ∀ o, t.HasObject o →
    (UInt32.ofNat o.index).toNat = o.index
  scopeFits : t.scopes.size ≤ 2 ^ 32 → ∀ s, t.HasScope s → (UInt32.ofNat s.index).toNat = s.index
  outerOlder : ∀ s u, (t.scope s).outer = some u → u.index < s.index
  bodyOwned : ∀ o, (t.object o).kind.hasBody →
    ∃ s, t.bodyScope o = .ok s ∧ (t.scope s).owner = o
  bodyInjective : ∀ o p s, t.bodyScope o = .ok s → t.bodyScope p = .ok s → o = p
  size : t.objects.size = 7 + made.length
  numbered : ∀ k (hk : k < made.length), ((t.object ⟨7 + k⟩).kind, t.name ⟨7 + k⟩) = made[k]
  answered : ∀ i (hi : i < steps.length) reply,
    let before := (initial limit).after (steps.take i)
    (before.step steps[i]).result = .ok reply →
    steps[i].made (before.step steps[i]).result ≠ [] →
    reply = .object ⟨7 + ((initial limit).madeDuring (steps.take i)).length⟩
  created : ∀ (u : Table) b name, (∃ e, u.create b name = .refused e u) ∨
    ∃ u', u.create b name = .accepted ⟨u.objects.size⟩ u' [] ∧ u.Adds b name u'
  limited : ∀ o, t.HasObject o → 7 ≤ o.index → (t.name o).length ≤ limit

/-- **Handles are dense, and none dangles,** whatever a session does. -/
theorem handles_after {limit : Nat} {steps : List Step} (hadmits : (initial limit).Admits steps) :
    DenselyNumbered limit steps ((initial limit).after steps)
      ((initial limit).madeDuring steps) := by
  let t := (initial limit).after steps
  have hreachable : t.Reachable := (Reachable.initial limit).after hadmits
  have howner : ∀ o s, t.bodyScope o = .ok s → (t.scope s).owner = o := fun o s hbody =>
    hreachable.bodiesOwned o s (bodyScope_eq_ok_iff.mp hbody)
  have hregistry (steps : List Step) (hadmits : (initial limit).Admits steps) :
      ((initial limit).after steps).registry =
        (initial limit).registry ++ (initial limit).madeDuring steps :=
    registry_after (initial_inBounds limit) hadmits
  have hsize (steps : List Step) (hadmits : (initial limit).Admits steps) :
      ((initial limit).after steps).objects.size =
        7 + ((initial limit).madeDuring steps).length := by
    rw [← length_registry, hregistry steps hadmits, List.length_append, length_registry_initial]
  refine ⟨hreachable.inBounds,
    fun hfew o ho => UInt32.toNat_ofNat_of_lt' (Nat.lt_of_lt_of_le ho hfew),
    fun hfew s hs => UInt32.toNat_ofNat_of_lt' (Nat.lt_of_lt_of_le hs hfew),
    hreachable.outerOlder, fun o hkind => ?_,
    fun o p s ho hp => (howner o s ho).symm.trans (howner p s hp), hsize steps hadmits,
    fun k hk => ?_, fun i hi reply => ?_, create_adds, fun o ho hlater => ?_⟩
  · obtain ⟨s, hbody⟩ := body?_isSome_of_hasBody hkind
    have hbody' := bodyScope_eq_ok_iff.mpr hbody
    exact ⟨s, hbody', howner o s hbody'⟩
  · have hlt : t.HasObject ⟨7 + k⟩ := by
      unfold HasObject
      rw [hsize steps hadmits]
      exact Nat.add_lt_add_left hk 7
    have hentry := hlt.getElem?_registry
    rw [hregistry steps hadmits, List.getElem?_append_right (Nat.le_add_right 7 k),
      length_registry_initial, Nat.add_sub_cancel_left, List.getElem?_eq_getElem hk] at hentry
    exact (Option.some.inj hentry).symm
  · intro before hresult hmade
    have hbefore : before.Reachable := (Reachable.initial limit).after (hadmits.take i)
    rw [reply_of_made hbefore.inBounds hresult hmade, nextObject, hsize _ (hadmits.take i)]
  · have hlimit := (after_leadsTo (initial_inBounds limit) hadmits).continues.limit
    exact Nat.le_trans (hreachable.namesLimited o ho hlater) (Nat.le_of_eq hlimit)

/-- A program and its variable, a scope made by hand, and a function. A constant with too long a
name and a second program are refused. -/
def numbered : List Step :=
  inProgram ++
    [.command (.create .var "v"), .command (.create .constant "long"),
     .command (.createScope ⟨7⟩ (some ⟨5⟩)), .command .loadReference,
     .command (.create .function "f")]

theorem handles_after_numbered :
    let t := (initial 3).after numbered
    (initial 3).Admits numbered ∧
      (initial 3).madeDuring numbered = [(.program, "P"), (.var, "v"), (.function, "f")] ∧
      t.InBounds ∧ t.objects.size = 10 ∧ ((t.object ⟨9⟩).kind, t.name ⟨9⟩) = (.function, "f") ∧
      (UInt32.ofNat 9).toNat = 9 ∧ t.bodyScope ⟨9⟩ = .ok ⟨7⟩ ∧ (t.scope ⟨7⟩).owner = ⟨9⟩ ∧
      (t.name ⟨9⟩).length ≤ 3 := by
  intro t
  have hadmits : (initial 3).Admits numbered := by decide
  have hnumbered := handles_after hadmits
  have hsize : t.objects.size = 10 := hnumbered.size
  have hobject : t.HasObject ⟨9⟩ := by decide
  have hbody : t.bodyScope ⟨9⟩ = .ok ⟨7⟩ := by decide
  obtain ⟨s, hs, howner⟩ := hnumbered.bodyOwned ⟨9⟩ (by decide)
  obtain rfl := Except.ok.inj (hbody.symm.trans hs)
  have hfew : t.objects.size ≤ 2 ^ 32 := by
    rw [hsize]
    decide
  exact ⟨hadmits, by decide, hnumbered.inBounds, hsize, hnumbered.numbered 2 (by decide),
    hnumbered.objectFits hfew ⟨9⟩ hobject, hbody, howner,
    hnumbered.limited ⟨9⟩ hobject (by decide)⟩

end Table

end BlockScope
