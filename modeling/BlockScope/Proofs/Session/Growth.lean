import BlockScope.Proofs.Session.Continuity
import BlockScope.Proofs.Session.Reachable

namespace BlockScope

namespace Attributes

/-- The routine that a parameter was made for. -/
def owner? : Attributes → Option ObjectId
  | parameter _ _ owner => some owner
  | _ => none

/-- The scope in which a variable was made, if it was made in one. -/
def home? : Attributes → Option ScopeId
  | var _ home => home
  | _ => none

/-- The attributes as they were when the object was made: no type or value is recorded, and the
parameter list of a routine is empty. -/
def asMade : Attributes → Attributes
  | program body => .program body
  | constant _ => .constant none
  | .alias _ => .alias none
  | var _ home => .var none home
  | function _ _ body => .function [] none body
  | procedure _ body => .procedure [] body
  | parameter _ mode owner => .parameter none mode owner

variable {attributes attributes' : Attributes}

@[simp] theorem kind_asMade (attributes : Attributes) :
    attributes.asMade.kind = attributes.kind := by
  cases attributes <;> rfl

@[simp] theorem mode?_asMade (attributes : Attributes) :
    attributes.asMade.mode? = attributes.mode? := by
  cases attributes <;> rfl

@[simp] theorem owner?_asMade (attributes : Attributes) :
    attributes.asMade.owner? = attributes.owner? := by
  cases attributes <;> rfl

@[simp] theorem home?_asMade (attributes : Attributes) :
    attributes.asMade.home? = attributes.home? := by
  cases attributes <;> rfl

@[simp] theorem body?_asMade (attributes : Attributes) :
    attributes.asMade.body? = attributes.body? := by
  cases attributes <;> rfl

private theorem asMade_assign (attributes : Attributes) (a : Assignment) :
    (attributes.assign a).asMade = attributes.asMade := by
  cases attributes <;> cases a <;> rfl

private theorem asMade_addParam (attributes : Attributes) (o : ObjectId) :
    (attributes.addParam o).asMade = attributes.asMade := by
  cases attributes <;> rfl

/-- A record fills a place or replaces what is there. -/
private theorem isSome_ty?_assign (a : Assignment) (h : attributes.ty?.isSome) :
    (attributes.assign a).ty?.isSome := by
  cases attributes <;> cases a <;> simp_all [assign, ty?]

private theorem isSome_value?_assign (a : Assignment) (h : attributes.value?.isSome) :
    (attributes.assign a).value?.isSome := by
  cases attributes <;> cases a <;> simp_all [assign, value?]

private theorem ty?_addParam (attributes : Attributes) (o : ObjectId) :
    (attributes.addParam o).ty? = attributes.ty? := by
  cases attributes <;> rfl

private theorem value?_addParam (attributes : Attributes) (o : ObjectId) :
    (attributes.addParam o).value? = attributes.value? := by
  cases attributes <;> rfl

end Attributes

/-- The second object is what the first one may be at a later time: it is as it was made, what was
recorded on it has at most been replaced, and its parameter list goes on. -/
structure Object.GrowsTo (o o' : Object) : Prop where
  name : o'.name = o.name
  asMade : o'.attributes.asMade = o.attributes.asMade
  registered : o.registered → o'.registered
  ty : o.attributes.ty?.isSome → o'.attributes.ty?.isSome
  value : o.attributes.value?.isSome → o'.attributes.value?.isSome
  params : ∀ list, o.params? = some list → ∃ later, o'.params? = some (list ++ later)

namespace Object.GrowsTo

variable {o o' o'' : Object}

theorem refl (o : Object) : o.GrowsTo o :=
  ⟨rfl, rfl, id, id, id, fun list h => ⟨[], by rwa [List.append_nil]⟩⟩

theorem trans (h : o.GrowsTo o') (h' : o'.GrowsTo o'') : o.GrowsTo o'' where
  name := h'.name.trans h.name
  asMade := h'.asMade.trans h.asMade
  registered hr := h'.registered (h.registered hr)
  ty ht := h'.ty (h.ty ht)
  value hv := h'.value (h.value hv)
  params list hlist := by
    obtain ⟨later, hlater⟩ := h.params list hlist
    obtain ⟨latest, hlatest⟩ := h'.params _ hlater
    exact ⟨later ++ latest, by rwa [← List.append_assoc]⟩

theorem kind (h : o.GrowsTo o') : o'.kind = o.kind := by
  have hkind := congrArg Attributes.kind h.asMade
  rwa [Attributes.kind_asMade, Attributes.kind_asMade] at hkind

theorem mode? (h : o.GrowsTo o') : o'.attributes.mode? = o.attributes.mode? := by
  have hmode := congrArg Attributes.mode? h.asMade
  rwa [Attributes.mode?_asMade, Attributes.mode?_asMade] at hmode

theorem owner? (h : o.GrowsTo o') : o'.attributes.owner? = o.attributes.owner? := by
  have howner := congrArg Attributes.owner? h.asMade
  rwa [Attributes.owner?_asMade, Attributes.owner?_asMade] at howner

private theorem home? (h : o.GrowsTo o') : o'.attributes.home? = o.attributes.home? := by
  have hhome := congrArg Attributes.home? h.asMade
  rwa [Attributes.home?_asMade, Attributes.home?_asMade] at hhome

theorem body? (h : o.GrowsTo o') : o'.body? = o.body? := by
  have hbody := congrArg Attributes.body? h.asMade
  rwa [Attributes.body?_asMade, Attributes.body?_asMade] at hbody

theorem assign (o : Object) (a : Assignment) : o.GrowsTo (o.assign a) where
  name := rfl
  asMade := Attributes.asMade_assign o.attributes a
  registered := id
  ty := Attributes.isSome_ty?_assign a
  value := Attributes.isSome_value?_assign a
  params list hlist := by
    refine ⟨[], ?_⟩
    rw [List.append_nil, ← hlist]
    exact Attributes.params?_assign o.attributes a

theorem addParam (o : Object) (p : ObjectId) : o.GrowsTo (o.addParam p) where
  name := rfl
  asMade := Attributes.asMade_addParam o.attributes p
  registered := id
  ty ht := by
    have hsame := Attributes.ty?_addParam o.attributes p
    rwa [← hsame] at ht
  value hv := by
    have hsame := Attributes.value?_addParam o.attributes p
    rwa [← hsame] at hv
  params list hlist := by
    have hadded := Attributes.params?_addParam o.attributes p
    have hlist' : o.attributes.params? = some list := hlist
    rw [hlist'] at hadded
    exact ⟨[p], hadded⟩

theorem register (o : Object) : o.GrowsTo o.register where
  name := rfl
  asMade := rfl
  registered _ := rfl
  ty := id
  value := id
  params list hlist := ⟨[], by rwa [List.append_nil]⟩

end Object.GrowsTo

namespace Table

/-- The second table is what the first one may be at a later time: all that it has made is still
there, its lists go on, and its program is the same. -/
structure GrowsTo (t t' : Table) : Prop extends Continues t t' where
  grown : ∀ {o}, t.HasObject o → (t.object o).GrowsTo (t'.object o)
  declared : ∀ {s}, t.HasScope s → (t.scope s).objects <+: (t'.scope s).objects
  sameProgram : ∀ {o}, t.program = some o → t'.program = some o

variable {t t' t'' : Table}

theorem GrowsTo.refl (t : Table) : t.GrowsTo t :=
  ⟨.refl t, fun _ => .refl _, fun _ => List.prefix_refl _, id⟩

theorem GrowsTo.trans (h : t.GrowsTo t') (h' : t'.GrowsTo t'') : t.GrowsTo t'' where
  toContinues := h.toContinues.trans h'.toContinues
  grown ho := (h.grown ho).trans (h'.grown (h.object ho))
  declared hs := (h.declared hs).trans (h'.declared (h.scope hs))
  sameProgram ho := h'.sameProgram (h.sameProgram ho)

/-- A declaration registers the declared object and may add to one parameter list. -/
private theorem object_growsTo_enlist (s : ScopeId) (o p : ObjectId) :
    (t.object p).GrowsTo ((t.enlist s o).object p) := by
  have hlisted : (t.object p).GrowsTo ((t.listParam s o).object p) := by
    rw [object_listParam]
    split
    · exact .addParam _ o
    · exact .refl _
  rw [object_enlist]
  split
  · exact hlisted.trans (.register _)
  · exact hlisted

theorem Transition.growsTo (h : t.Transition t') : t.GrowsTo t' := by
  refine ⟨h.continues, fun {o} ho => ?_, fun {s} hs => ?_, fun {o} hprogram => ?_⟩
  · cases h with
    | create name hfits hlength hfirst =>
      rw [ho.object_allocate]
      exact .refl _
    | @assign p a hp hkind =>
      rw [object_modifyObject]
      split
      · exact .assign _ a
      · exact .refl _
    | declare hcurrent hp hfresh => exact object_growsTo_enlist _ _ o
    | _ => exact .refl _
  · cases h with
    | create name hfits hlength hfirst =>
      exact ⟨[], by rw [hs.scope_allocate, List.append_nil]⟩
    | createScope howner houter =>
      exact ⟨[], by rw [scope_createScope, if_neg hs.ne_nextScope, List.append_nil]⟩
    | declare hcurrent hp hfresh =>
      rw [scope_enlist]
      split
      · exact List.prefix_append _ _
      · exact List.prefix_refl _
    | _ => exact List.prefix_refl _
  · cases h with
    | @create b name hfits hlength hfirst =>
      have hother : b.kind ≠ .program := fun hkind => by
        rw [hfirst hkind] at hprogram
        cases hprogram
      exact (if_neg hother).trans hprogram
    | declare hcurrent hp hfresh => exact (program_enlist _ _).trans hprogram
    | _ => exact hprogram

theorem LeadsTo.growsTo (h : t.LeadsTo t') : t.GrowsTo t' :=
  h.preserves (fun hstep hbefore => hbefore.trans hstep.growsTo) (.refl t)

namespace GrowsTo

variable {o : ObjectId}

theorem name_eq (h : t.GrowsTo t') (ho : t.HasObject o) : t'.name o = t.name o :=
  (h.grown ho).name

theorem bodyScope_eq (h : t.GrowsTo t') (ho : t.HasObject o) : t'.bodyScope o = t.bodyScope o := by
  unfold bodyScope mismatch
  rw [(h.grown ho).body?, h.name_eq ho, (h.grown ho).kind]

/-- A parameter list goes on where it ended. -/
theorem params_prefix (h : t.GrowsTo t') (ho : t.HasObject o) {params : List ObjectId}
    (hparams : t.params o = .ok params) :
    ∃ params', t'.params o = .ok params' ∧ params <+: params' := by
  obtain ⟨later, hlater⟩ := (h.grown ho).params params (params_eq_ok_iff.mp hparams)
  exact ⟨params ++ later, params_eq_ok_iff.mpr hlater, List.prefix_append params later⟩

/-- What has a value keeps having one. -/
theorem constantValue_ok (h : t.GrowsTo t') (ho : t.HasObject o) {value : Literal}
    (hvalue : t.constantValue o = .ok value) : ∃ value', t'.constantValue o = .ok value' := by
  have hsome := Option.isSome_of_eq_some (constantValue_eq_ok_iff.mp hvalue)
  obtain ⟨value', hvalue'⟩ := Option.isSome_iff_exists.mp ((h.grown ho).value hsome)
  exact ⟨value', constantValue_eq_ok_iff.mpr hvalue'⟩

theorem declaredType_ok (h : t.GrowsTo t') (ho : t.HasObject o) {ty : Ty}
    (hty : t.declaredType o = .ok ty) : ∃ ty', t'.declaredType o = .ok ty' := by
  obtain ⟨hkind, hrecorded⟩ := declaredType_eq_ok_iff.mp hty
  have hsome := (h.grown ho).ty (Option.isSome_of_eq_some hrecorded)
  obtain ⟨ty', hty'⟩ := Option.isSome_iff_exists.mp hsome
  rw [← (h.grown ho).kind] at hkind
  exact ⟨ty', declaredType_eq_ok_iff.mpr ⟨hkind, hty'⟩⟩

theorem returnType_ok (h : t.GrowsTo t') (ho : t.HasObject o) {ty : Ty}
    (hty : t.returnType o = .ok ty) : ∃ ty', t'.returnType o = .ok ty' := by
  obtain ⟨hkind, hrecorded⟩ := returnType_eq_ok_iff.mp hty
  have hsome := (h.grown ho).ty (Option.isSome_of_eq_some hrecorded)
  obtain ⟨ty', hty'⟩ := Option.isSome_iff_exists.mp hsome
  rw [← (h.grown ho).kind] at hkind
  exact ⟨ty', returnType_eq_ok_iff.mpr ⟨hkind, hty'⟩⟩

end GrowsTo

/-- The object is still there in `t'`, with all that was settled when it was made. Once declared it
stays declared, a type or value that has been recorded may be replaced but is never missing again,
and parameters are listed after those that were. -/
structure ObjectStays (t t' : Table) (o : ObjectId) : Prop where
  hasObject : t'.HasObject o
  name : t'.name o = t.name o
  kind : (t'.object o).kind = (t.object o).kind
  mode? : (t'.object o).attributes.mode? = (t.object o).attributes.mode?
  owner? : (t'.object o).attributes.owner? = (t.object o).attributes.owner?
  home? : (t'.object o).attributes.home? = (t.object o).attributes.home?
  bodyScope : t'.bodyScope o = t.bodyScope o
  registered : (t.object o).registered → (t'.object o).registered
  constantValue : ∀ value, t.constantValue o = .ok value →
    ∃ value', t'.constantValue o = .ok value'
  declaredType : ∀ ty, t.declaredType o = .ok ty → ∃ ty', t'.declaredType o = .ok ty'
  returnType : ∀ ty, t.returnType o = .ok ty → ∃ ty', t'.returnType o = .ok ty'
  params : ∀ params, t.params o = .ok params →
    ∃ params', t'.params o = .ok params' ∧ params <+: params'

/-- The scope is still there in `t'`, in its place, and has its declarations before all others. -/
structure ScopeStays (t t' : Table) (s : ScopeId) : Prop where
  hasScope : t'.HasScope s
  owner : (t'.scope s).owner = (t.scope s).owner
  outer : (t'.scope s).outer = (t.scope s).outer
  objects : (t.scope s).objects <+: (t'.scope s).objects

/-- All that is in `t` is in `t'` too, under the same handles, and so are the predeclared routines,
the limit on names and the program, once there is one. -/
structure AppendsTo (t t' : Table) : Prop where
  object : ∀ o, t.HasObject o → t.ObjectStays t' o
  scope : ∀ s, t.HasScope s → t.ScopeStays t' s
  globals : t'.globals = t.globals
  limit : t'.maxIdentLength = t.maxIdentLength
  program : ∀ o, t.program = some o → t'.program = some o

/-- **A table is append-only,** whatever a session does with it. -/
theorem Reachable.after_appends (h : t.Reachable) {steps : List Step} (hadmits : t.Admits steps) :
    t.AppendsTo (t.after steps) := by
  have hgrows := (after_leadsTo h.inBounds hadmits).growsTo
  refine ⟨fun o ho => ?_, fun s hs => ?_, hgrows.globals, hgrows.limit,
    fun _ => hgrows.sameProgram⟩
  · have hgrown := hgrows.grown ho
    exact {
      hasObject := hgrows.object ho
      name := hgrown.name
      kind := hgrown.kind
      mode? := hgrown.mode?
      owner? := hgrown.owner?
      home? := hgrown.home?
      bodyScope := hgrows.bodyScope_eq ho
      registered := hgrown.registered
      constantValue := fun _ => hgrows.constantValue_ok ho
      declaredType := fun _ => hgrows.declaredType_ok ho
      returnType := fun _ => hgrows.returnType_ok ho
      params := fun _ => hgrows.params_prefix ho }
  · exact ⟨hgrows.scope hs, hgrows.owner hs, hgrows.outer hs, hgrows.declared hs⟩

/-- A function with one parameter that has a type. -/
def prepared : List Step :=
  [.command (.create .program "P"), .command (.enter ⟨5⟩), .command (.create .function "f"),
   .command (.declare ⟨8⟩), .command (.enter ⟨6⟩),
   .command (.create (.parameter .byReference ⟨8⟩) "x"), .command (.assign ⟨9⟩ (.parameter .int)),
   .command (.declare ⟨9⟩)]

/-- The function gets another parameter and the first one another type, and a result is recorded.
Declaring the first parameter again and loading the reference program are refused. -/
def continuation : List Step :=
  [.command (.create (.parameter .byValue ⟨8⟩) "y"), .command (.declare ⟨9⟩),
   .command (.assign ⟨9⟩ (.parameter .char)), .command (.declare ⟨10⟩), .command .exit,
   .command .loadReference, .command (.assign ⟨8⟩ (.function .int))]

theorem after_appends_continuation : ((initial 15).after prepared).Reachable ∧
    ((initial 15).after prepared).Admits continuation ∧
    ((initial 15).after prepared).params ⟨8⟩ = .ok [⟨9⟩] ∧
    (∃ params', (((initial 15).after prepared).after continuation).params ⟨8⟩ = .ok params' ∧
      [⟨9⟩] <+: params') ∧
    (∃ ty', (((initial 15).after prepared).after continuation).declaredType ⟨9⟩ = .ok ty') ∧
    (((initial 15).after prepared).after continuation).program = some ⟨7⟩ := by
  have hreachable : ((initial 15).after prepared).Reachable :=
    (Reachable.initial 15).after (by decide)
  have hadmits : ((initial 15).after prepared).Admits continuation := by decide +kernel
  have happends := hreachable.after_appends hadmits
  exact ⟨hreachable, hadmits, by decide,
    (happends.object ⟨8⟩ (by decide)).params [⟨9⟩] (by decide),
    (happends.object ⟨9⟩ (by decide)).declaredType .int (by decide),
    happends.program ⟨7⟩ (by decide)⟩

end Table

end BlockScope
