import BlockScope.Proofs.Table.Additions
import BlockScope.Table.Change

namespace BlockScope

namespace Outcome

variable {α β : Type}

@[simp] theorem result_andThen_accepted (a : α) (t : Table) (log : List Event)
    (next : α → Table → Outcome β) :
    ((accepted a t log).andThen next).result = (next a t).result :=
  rfl

@[simp] theorem table_andThen_accepted (a : α) (t : Table) (log : List Event)
    (next : α → Table → Outcome β) :
    ((accepted a t log).andThen next).table = (next a t).table :=
  rfl

theorem result_andThen_of_ok {first : Outcome α} {next : α → Table → Outcome β} {a : α}
    (h : first.result = .ok a) : (first.andThen next).result = (next a first.table).result := by
  unfold andThen
  rw [h]

theorem table_andThen_of_ok {first : Outcome α} {next : α → Table → Outcome β} {a : α}
    (h : first.result = .ok a) : (first.andThen next).table = (next a first.table).table := by
  unfold andThen
  rw [h]

theorem result_andThen_of_error {first : Outcome α} {next : α → Table → Outcome β}
    {e : SemanticError} (h : first.result = .error e) : (first.andThen next).result = .error e := by
  unfold andThen
  rw [h]

theorem table_andThen_of_error {first : Outcome α} {next : α → Table → Outcome β}
    {e : SemanticError} (h : first.result = .error e) :
    (first.andThen next).table = first.table := by
  unfold andThen
  rw [h]

@[simp] theorem map_accepted (f : α → β) (a : α) (t : Table) (log : List Event) :
    (accepted a t log).map f = accepted (f a) t log :=
  rfl

@[simp] theorem map_refused (f : α → β) (e : SemanticError) (t : Table) :
    (refused e t : Outcome α).map f = refused e t :=
  rfl

end Outcome

namespace Table

variable {t : Table} {o : ObjectId} {s : ScopeId}

theorem create_accepted {b : Blueprint} {name : String} (hlength : name.length ≤ t.maxIdentLength)
    (hfirst : b.kind = .program → t.program = none) :
    t.create b name = .accepted t.nextObject (t.allocate b name) [] := by
  unfold create
  rw [if_neg (Nat.not_lt_of_le hlength)]
  split
  · rename_i existing hkind hexisting
    rw [hfirst hkind] at hexisting
    cases hexisting
  · rfl

/-- A creation is refused without a trace, or else the next object is allocated. -/
theorem create_cases (t : Table) (b : Blueprint) (name : String) :
    (∃ e, t.create b name = .refused e t) ∨
      (t.create b name = .accepted t.nextObject (t.allocate b name) [] ∧
        name.length ≤ t.maxIdentLength ∧ (b.kind = .program → t.program = none)) := by
  by_cases hlong : t.maxIdentLength < name.length
  · exact .inl ⟨_, if_pos hlong⟩
  · have hlength : name.length ≤ t.maxIdentLength := Nat.le_of_not_lt hlong
    by_cases hfirst : b.kind = .program → t.program = none
    · exact .inr ⟨create_accepted hlength hfirst, hlength, hfirst⟩
    · obtain ⟨hkind, hprogram⟩ := Classical.not_imp.mp hfirst
      obtain ⟨existing, hexisting⟩ := Option.ne_none_iff_exists'.mp hprogram
      refine .inl ⟨.programAlreadyDefined (t.name existing), ?_⟩
      simp [create, hlong, hkind, hexisting]

@[simp] theorem current_create (b : Blueprint) (name : String) :
    (t.create b name).table.current = t.current := by
  obtain ⟨e, hrefused⟩ | ⟨haccepted, _⟩ := t.create_cases b name
  · rw [hrefused]
    rfl
  · rw [haccepted]
    rfl

theorem assign_accepted {a : Assignment} (hkind : (t.object o).kind = a.kind) :
    t.assign o a = .accepted () (t.modifyObject o (·.assign a)) [] :=
  if_pos hkind

/-- A record is refused without a trace, or else it is made. -/
theorem assign_cases (t : Table) (o : ObjectId) (a : Assignment) :
    (∃ e, t.assign o a = .refused e t) ∨
      (t.assign o a = .accepted () (t.modifyObject o (·.assign a)) [] ∧
        (t.object o).kind = a.kind) := by
  by_cases hkind : (t.object o).kind = a.kind
  · exact .inr ⟨assign_accepted hkind, hkind⟩
  · exact .inl ⟨_, if_neg hkind⟩

@[simp] theorem current_assign (o : ObjectId) (a : Assignment) :
    (t.assign o a).table.current = t.current := by
  obtain ⟨e, hrefused⟩ | ⟨haccepted, _⟩ := t.assign_cases o a
  · rw [hrefused]
    rfl
  · rw [haccepted]
    rfl

theorem constantValue_eq_ok_iff {value : Literal} :
    t.constantValue o = .ok value ↔ (t.object o).attributes.value? = some value := by
  unfold constantValue recorded
  cases (t.object o).attributes with
  | constant found => cases found <;> simp [Attributes.value?]
  | _ => simp [Attributes.value?]

/-- The type of a function is that of its result, which has a question of its own. -/
theorem declaredType_eq_ok_iff {ty : Ty} : t.declaredType o = .ok ty ↔
    (t.object o).kind ≠ .function ∧ (t.object o).attributes.ty? = some ty := by
  unfold declaredType recorded Object.kind
  cases (t.object o).attributes with
  | «alias» found => cases found <;> simp [Attributes.ty?, Attributes.kind]
  | var found home => cases found <;> simp [Attributes.ty?, Attributes.kind]
  | parameter found mode owner => cases found <;> simp [Attributes.ty?, Attributes.kind]
  | _ => simp [Attributes.ty?, Attributes.kind]

theorem returnType_eq_ok_iff {ty : Ty} : t.returnType o = .ok ty ↔
    (t.object o).kind = .function ∧ (t.object o).attributes.ty? = some ty := by
  unfold returnType recorded Object.kind
  cases (t.object o).attributes with
  | function params found body => cases found <;> simp [Attributes.ty?, Attributes.kind]
  | _ => simp [Attributes.kind]

theorem params_eq_ok_iff {params : List ObjectId} :
    t.params o = .ok params ↔ (t.object o).params? = some params := by
  unfold Table.params
  cases (t.object o).params? <;> simp

theorem bodyScope_eq_ok_iff : t.bodyScope o = .ok s ↔ (t.object o).body? = some s := by
  unfold bodyScope
  cases (t.object o).body? <;> simp

theorem declare_accepted (hcurrent : t.current = some s)
    (hfresh : (t.object o).registered = false) :
    t.declare o = .accepted () (t.enlist s o) (t.declarationLog s o) := by
  simp [declare, hcurrent, hfresh]

/-- A declaration is refused without a trace, or else the current scope takes the object. -/
theorem declare_cases (t : Table) (o : ObjectId) : (∃ e, t.declare o = .refused e t) ∨
    ∃ s, t.declare o = .accepted () (t.enlist s o) (t.declarationLog s o) ∧
      t.current = some s ∧ (t.object o).registered = false := by
  cases hcurrent : t.current with
  | none => exact .inl ⟨.noCurrentScope .declareObject, by simp [declare, hcurrent]⟩
  | some s =>
    cases hfresh : (t.object o).registered with
    | true => exact .inl ⟨.alreadyDeclared (t.name o), by simp [declare, hcurrent, hfresh]⟩
    | false => exact .inr ⟨s, declare_accepted hcurrent hfresh, rfl, rfl⟩

@[simp] theorem current_declare (o : ObjectId) :
    (t.declare o).table.current = t.current := by
  obtain ⟨e, hrefused⟩ | ⟨s, haccepted, _⟩ := t.declare_cases o
  · rw [hrefused]
    rfl
  · rw [haccepted]
    exact current_enlist s o

theorem enter_accepted (hopen : (t.scope s).owner ∉ t.globals)
    (houter : (t.scope s).outer = t.current) :
    t.enter s = .accepted () { t with current := some s }
      [.entered (t.name (t.scope s).owner) s] := by
  simp [enter, hopen, houter]

theorem enter_eq_unbalanced (hopen : (t.scope s).owner ∉ t.globals)
    (houter : (t.scope s).outer ≠ t.current) : t.enter s = .refused .unbalancedBlock t := by
  simp [enter, hopen, houter]

/-- A scope is entered from the scope around it only, and not at all if its owner is
predeclared. -/
theorem enter_cases (t : Table) (s : ScopeId) : (∃ e, t.enter s = .refused e t) ∨
    (t.enter s = .accepted () { t with current := some s }
        [.entered (t.name (t.scope s).owner) s] ∧
      (t.scope s).owner ∉ t.globals ∧ (t.scope s).outer = t.current) := by
  by_cases hopen : (t.scope s).owner ∈ t.globals
  · exact .inl ⟨.sealedScope (t.name (t.scope s).owner), by simp [enter, hopen]⟩
  · by_cases houter : (t.scope s).outer = t.current
    · exact .inr ⟨enter_accepted hopen houter, hopen, houter⟩
    · exact .inl ⟨_, enter_eq_unbalanced hopen houter⟩

theorem enter_eq_ok_iff : (t.enter s).result = .ok () ↔
    (t.scope s).owner ∉ t.globals ∧ (t.scope s).outer = t.current := by
  constructor
  · intro h
    obtain ⟨e, hrefused⟩ | ⟨_, hopen, houter⟩ := t.enter_cases s
    · rw [hrefused] at h
      cases h
    · exact ⟨hopen, houter⟩
  · rintro ⟨hopen, houter⟩
    rw [enter_accepted hopen houter]
    rfl

theorem exit_accepted (hcurrent : t.current = some s) :
    t.exit = .accepted () { t with current := (t.scope s).outer }
      [.exited (t.name (t.scope s).owner) s] := by
  simp [exit, hcurrent]

theorem objects_exit : t.exit.table.objects = t.objects := by
  unfold exit
  split <;> rfl

theorem exit_refused (hcurrent : t.current = none) :
    t.exit = .refused (.noCurrentScope .exitBlock) t := by
  simp [exit, hcurrent]

end Table

end BlockScope
