import BlockScope.Proofs.Declarations.Headings
import BlockScope.Proofs.Table.Operations
import BlockScope.Session

namespace BlockScope

/-- The object without the type or value that is recorded on it. -/
def Object.bare (o : Object) : Object :=
  { o with attributes := o.attributes.bare }

/-- The table without types and values: what is left are names, kinds, modes, lists, registrations,
blocks and the links between them. -/
def Table.bare (t : Table) : Table :=
  { t with objects := t.objects.map Object.bare }

/-- The answer, the table without types and values, and what has been reported. -/
def Outcome.bare {α : Type} (o : Outcome α) : Outcome α :=
  { o with table := o.table.bare }

/-- The operation does not see types and values: without them it answers and reports the same, and
leaves the same table but for types and values. -/
def Blind {α : Type} (f : Table → Outcome α) : Prop :=
  ∀ t : Table, (f t.bare).bare = (f t).bare

theorem Attributes.bare_bare (attributes : Attributes) :
    attributes.bare.bare = attributes.bare := by
  cases attributes <;> rfl

private theorem Attributes.bare_addParam (attributes : Attributes) (o : ObjectId) :
    (attributes.addParam o).bare = attributes.bare.addParam o := by
  cases attributes <;> rfl

namespace Object

theorem bare_bare (o : Object) : o.bare.bare = o.bare := by
  simp [bare, Attributes.bare_bare]

@[simp] theorem name_bare (o : Object) : o.bare.name = o.name :=
  rfl

@[simp] theorem registered_bare (o : Object) : o.bare.registered = o.registered :=
  rfl

@[simp] theorem kind_bare (o : Object) : o.bare.kind = o.kind :=
  o.attributes.kind_bare

@[simp] theorem body?_bare (o : Object) : o.bare.body? = o.body? :=
  o.attributes.body?_bare

@[simp] theorem params?_bare (o : Object) : o.bare.params? = o.params? :=
  o.attributes.params?_bare

theorem bare_assign (o : Object) (a : Assignment) : (o.assign a).bare = o.bare := by
  simp [bare, assign]

private theorem bare_addParam (o : Object) (p : ObjectId) :
    (o.addParam p).bare = o.bare.addParam p := by
  simp [bare, addParam, Attributes.bare_addParam]

end Object

namespace Table

variable {t t' : Table}

theorem bare_bare (t : Table) : t.bare.bare = t.bare := by
  simp [bare, Function.comp_def, Object.bare_bare]

@[simp] theorem object_bare (o : ObjectId) : t.bare.object o = (t.object o).bare := by
  unfold object bare
  rw [Array.getElem?_map]
  cases t.objects[o.index]? <;> rfl

@[simp] theorem name_bare (o : ObjectId) : t.bare.name o = t.name o := by
  simp [name]

@[simp] theorem scope_bare (s : ScopeId) : t.bare.scope s = t.scope s :=
  rfl

@[simp] theorem maxIdentLength_bare : t.bare.maxIdentLength = t.maxIdentLength :=
  rfl

@[simp] theorem program_bare : t.bare.program = t.program :=
  rfl

@[simp] theorem globals_bare : t.bare.globals = t.globals :=
  rfl

@[simp] theorem current_bare : t.bare.current = t.current :=
  rfl

@[simp] theorem nextObject_bare : t.bare.nextObject = t.nextObject := by
  simp [nextObject, bare]

theorem hasObject_bare {o : ObjectId} : t.bare.HasObject o ↔ t.HasObject o := by
  simp [HasObject, bare]

theorem hasScope_bare {s : ScopeId} : t.bare.HasScope s ↔ t.HasScope s :=
  Iff.rfl

private theorem bare_modifyObject (o : ObjectId) {f : Object → Object}
    (h : ∀ p, (f p).bare = f p.bare) :
    (t.modifyObject o f).bare = t.bare.modifyObject o f := by
  have hobjects : (t.objects.modify o.index f).map Object.bare =
      (t.objects.map Object.bare).modify o.index f := by
    refine Array.ext (by simp) fun i _ _ => ?_
    simp only [Array.getElem_map, Array.getElem_modify]
    split
    · exact h _
    · rfl
  simp only [bare, modifyObject, hobjects]

/-- Of a record, nothing is left without types and values. -/
theorem bare_record (o : ObjectId) (a : Assignment) :
    (t.modifyObject o (·.assign a)).bare = t.bare := by
  have hobjects := t.map_modifyObject o fun p => p.bare_assign a
  unfold bare
  rw [hobjects]
  rfl

/-- New objects are bare. -/
private theorem bare_allocate (b : Blueprint) (name : String) :
    (t.allocate b name).bare = t.bare.allocate b name := by
  have hnew : t.newAttributes b = (t.newAttributes b).bare := by cases b <;> rfl
  unfold allocate newScopes
  rw [nextObject_bare]
  simp only [bare, Array.map_push, Object.bare, ← hnew]
  rfl

private theorem bare_listParam (s : ScopeId) (o : ObjectId) :
    (t.listParam s o).bare = t.bare.listParam s o := by
  unfold listParam
  rw [object_bare, Object.kind_bare, scope_bare]
  split
  · exact bare_modifyObject _ fun p => p.bare_addParam o
  · rfl

private theorem bare_enlist (s : ScopeId) (o : ObjectId) :
    (t.enlist s o).bare = t.bare.enlist s o := by
  unfold enlist
  rw [← bare_listParam]
  exact bare_modifyObject o fun _ => rfl

end Table

theorem Outcome.bare_bare {α : Type} (o : Outcome α) : o.bare.bare = o.bare := by
  simp [bare, Table.bare_bare]

namespace Blind

variable {α β : Type} {f : Table → Outcome α} {t t' : Table}

/-- What does the same without types and values, and then leaves none, does not see them. -/
theorem of_eq (h : ∀ t : Table, f t.bare = (f t).bare) : Blind f := fun t => by
  rw [h, Outcome.bare_bare]

/-- Tables that differ in types and values only are the same to a blind operation. -/
theorem congr (h : Blind f) (hsame : t.bare = t'.bare) : (f t).bare = (f t').bare := by
  rw [← h t, hsame, h t']

theorem result_eq (h : Blind f) (hsame : t.bare = t'.bare) : (f t).result = (f t').result :=
  (Outcome.mk.inj (h.congr hsame)).1

theorem log_eq (h : Blind f) (hsame : t.bare = t'.bare) : (f t).log = (f t').log :=
  (Outcome.mk.inj (h.congr hsame)).2.2

theorem table_eq (h : Blind f) (hsame : t.bare = t'.bare) :
    (f t).table.bare = (f t').table.bare :=
  (Outcome.mk.inj (h.congr hsame)).2.1

theorem map (h : Blind f) (g : α → β) : Blind fun t => (f t).map g :=
  fun t => congrArg (Outcome.map g) (h t)

theorem andThen (hfirst : Blind f) {next : α → Table → Outcome β} (hnext : ∀ a, Blind (next a)) :
    Blind fun t => (f t).andThen next := fun t => by
  have hresult := hfirst.result_eq t.bare_bare
  have hlog := hfirst.log_eq t.bare_bare
  have htable := hfirst.table_eq t.bare_bare
  change ((f t.bare).andThen next).bare = ((f t).andThen next).bare
  unfold Outcome.andThen
  rw [hresult]
  cases (f t).result with
  | error e => simp only [Outcome.bare, htable, hlog]
  | ok a =>
    have hrest := (hnext a).congr htable
    simp only [Outcome.bare, hlog, Outcome.mk.injEq] at hrest ⊢
    exact ⟨hrest.1, hrest.2.1, congrArg _ hrest.2.2⟩

theorem accepted (a : α) : Blind fun t => .accepted a t [] :=
  of_eq fun _ => rfl

theorem refused (e : SemanticError) : Blind fun t => (.refused e t : Outcome α) :=
  of_eq fun _ => rfl

end Blind

namespace Table

variable {t : Table}

theorem create_blind (b : Blueprint) (name : String) : Blind fun t => t.create b name := by
  refine .of_eq fun t => ?_
  simp only [create, maxIdentLength_bare, program_bare, name_bare, nextObject_bare, ← bare_allocate]
  split
  · rfl
  · split <;> rfl

theorem createScope_blind (owner : ObjectId) (outer : Option ScopeId) :
    Blind fun t => t.createScope owner outer :=
  .of_eq fun _ => rfl

/-- Whether a record is accepted depends on the kind of the object, and what is recorded is not
seen. -/
theorem assign_blind (o : ObjectId) (a : Assignment) : Blind fun t => t.assign o a := fun t => by
  simp only [assign, mismatch, object_bare, Object.kind_bare, name_bare]
  split
  · simp only [Outcome.bare, Outcome.accepted, bare_record, bare_bare]
  · simp only [Outcome.bare, Outcome.refused, bare_bare]

theorem enter_blind (s : ScopeId) : Blind fun t => t.enter s := by
  refine .of_eq fun t => ?_
  simp only [enter, scope_bare, globals_bare, name_bare, current_bare]
  split
  · rfl
  · split <;> rfl

theorem exit_blind : Blind exit := by
  refine .of_eq fun t => ?_
  simp only [exit, current_bare, scope_bare, name_bare]
  split <;> rfl

private theorem declarationLog_bare (s : ScopeId) (o : ObjectId) :
    t.bare.declarationLog s o = t.declarationLog s o := by
  simp [declarationLog]

theorem declare_blind (o : ObjectId) : Blind fun t => t.declare o := by
  refine .of_eq fun t => ?_
  simp only [declare, current_bare, object_bare, Object.registered_bare, name_bare, ← bare_enlist,
    declarationLog_bare]
  cases t.current with
  | none => rfl
  | some s =>
    change (if _ then _ else _) = Outcome.bare (if _ then _ else _)
    split <;> rfl

private theorem introduce_blind (b : Blueprint) (name : String) (a : Assignment) :
    Blind fun t => t.introduce b name a :=
  (create_blind b name).andThen fun o => (assign_blind o a).andThen fun _ =>
    (declare_blind o).andThen fun _ => .accepted o

private theorem introduceParam_blind (name : String) (mode : ParamMode) (ty : Ty) :
    Blind fun t => t.introduceParam name mode ty := fun t => by
  simp only [introduceParam, current_bare, scope_bare]
  cases t.current with
  | none => exact Blind.refused _ t
  | some s => exact introduce_blind _ name _ t

private theorem bodyScope_bare (o : ObjectId) : t.bare.bodyScope o = t.bodyScope o := by
  simp [bodyScope, mismatch]

private theorem enterBody_blind (o : ObjectId) : Blind fun t => t.enterBody o := fun t => by
  simp only [enterBody, bodyScope_bare]
  cases t.bodyScope o with
  | error e => exact Blind.refused e t
  | ok s => exact enter_blind s t

end Table

open Table

theorem Program.load_blind (p : Program) : Blind p.load := by
  have hcomposes : Composes (fun _ => True) Blind := {
    accepted := .accepted
    andThen := fun hfirst hnext => hfirst.andThen hnext
    create := fun b name _ => create_blind b name
    assign := assign_blind
    declare := declare_blind
    introduceParam := fun mode ty _ => introduceParam_blind _ mode ty
    enterBody := enterBody_blind
    exit := exit_blind }
  exact hcomposes.load_program p fun _ _ => trivial

namespace Table

variable {t : Table}

theorem perform_blind (c : Command) : Blind fun t => t.perform c := by
  cases c with
  | create b name => exact (create_blind b name).map _
  | createScope owner outer => exact (createScope_blind owner outer).map _
  | assign o a => exact (assign_blind o a).map _
  | enter s => exact (enter_blind s).map _
  | exit => exact exit_blind.map _
  | declare o => exact (declare_blind o).map _
  | loadReference => exact Program.reference.load_blind.map _

private theorem params_bare (o : ObjectId) : t.bare.params o = t.params o := by
  simp [params, mismatch]

private theorem find?_bare (list : List ObjectId) (name : String) :
    t.bare.find? list name = t.find? list name := by
  simp [find?]

private theorem findIn?_bare (s : ScopeId) (name : String) :
    t.bare.findIn? s name = t.findIn? s name :=
  find?_bare _ name

private theorem outward_bare (length : Nat) (s : Option ScopeId) :
    t.bare.outward length s = t.outward length s := by
  induction length generalizing s with
  | zero => rfl
  | succ length ih => cases s with
    | none => rfl
    | some s => simp [outward, ih]

private theorem lookup?_bare (name : String) : t.bare.lookup? name = t.lookup? name := by
  have hchain : t.bare.chain = t.chain := outward_bare _ _
  simp [lookup?, hchain, findIn?_bare, find?_bare]

private theorem checkFresh_bare (name : String) : t.bare.checkFresh name = t.checkFresh name := by
  simp [checkFresh, findIn?_bare]

private theorem resolve_bare (role : Role) (name : String) :
    t.bare.resolve role name = t.resolve role name := by
  simp [resolve, lookup?_bare]

private theorem checkKind_bare (kind : Kind) (name : String) :
    t.bare.checkKind kind name = t.checkKind kind name := by
  simp [checkKind, resolve_bare]

private theorem isAssignable_bare (o : ObjectId) : t.bare.isAssignable o = t.isAssignable o := by
  simp only [isAssignable, object_bare, Object.kind_bare, current_bare, scope_bare]

private theorem checkLValue_bare (name : String) :
    t.bare.checkLValue name = t.checkLValue name := by
  simp [checkLValue, isAssignable_bare, resolve_bare]

end Table

namespace Step

/-- The step is to record a type or value. -/
def isAssign : Step → Bool
  | command (.assign ..) => true
  | _ => false

/-- The step asks for the type or value that is recorded on an object. -/
def asksRecord : Step → Bool
  | query (.constantValue _) | query (.declaredType _) | query (.returnType _) => true
  | _ => false

end Step

/-- No step sees types and values unless it asks for them. -/
theorem Table.step_blind {s : Step} (h : s.asksRecord = false) : Blind fun t => t.step s := by
  cases s with
  | command c => exact perform_blind c
  | query q =>
    have hanswer (t : Table) : t.bare.answer q = t.answer q := by
      cases q with
      | params o => simp only [answer, params_bare]
      | bodyScope o => simp only [answer, bodyScope_bare]
      | scope s => rfl
      | find list name => simp only [answer, find?_bare]
      | findIn s name => simp only [answer, findIn?_bare]
      | findGlobal name => simp only [answer, find?_bare, globals_bare]
      | lookup name => simp only [answer, lookup?_bare]
      | checkFresh name => simp only [answer, checkFresh_bare]
      | checkDeclared name => simp only [answer, checkDeclared, resolve_bare]
      | checkKind kind name => simp only [answer, checkKind_bare]
      | checkLValue name => simp only [answer, checkLValue_bare]
      | _ => cases h
    exact .of_eq fun t => congrArg (Outcome.ofAnswer · t.bare) (hanswer t)

end BlockScope
