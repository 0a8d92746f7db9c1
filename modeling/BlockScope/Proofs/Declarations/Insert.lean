import BlockScope.Proofs.Declarations.Headings
import BlockScope.Proofs.Session.Orderly

namespace BlockScope

namespace Heading

/-- What an object with the heading is made from. A parameter is made for `owner`. -/
def blueprint (owner : ObjectId) : Heading → Blueprint
  | program _ => .program
  | constant .. => .constant
  | .alias .. => .alias
  | var .. => .var
  | function .. => .function
  | procedure _ => .procedure
  | parameter _ mode _ => .parameter mode owner

/-- What is recorded on an object with the heading. -/
def record? : Heading → Option Assignment
  | constant _ value => value.map .constant
  | .alias _ actual => actual.map .alias
  | var _ ty => ty.map .var
  | function _ result => result.map .function
  | parameter _ _ ty => ty.map .parameter
  | program _ | procedure _ => none

/-- The heading is that of a declaration. Only a procedure is declared without a record. -/
def Declares (h : Heading) : Prop :=
  h.kind = .procedure ∨ h.record?.isSome

variable {h : Heading}

@[simp] theorem kind_blueprint (owner : ObjectId) : (h.blueprint owner).kind = h.kind := by
  cases h <;> rfl

theorem kind_of_record? {a : Assignment} (ha : h.record? = some a) : a.kind = h.kind := by
  cases h <;> simp only [record?, Option.map_eq_some_iff, reduceCtorEq] at ha <;>
    obtain ⟨_, _, rfl⟩ := ha <;> rfl

theorem Declares.kind_ne_program (hdeclares : h.Declares) : h.kind ≠ .program := by
  cases h with
  | program => simp [Declares, kind, record?] at hdeclares
  | _ => nofun

end Heading

namespace Table

/-- The table with a new object as the heading shows it, which is not declared yet. In the scope
`s`, a parameter is made for the owner of `s`. -/
def prepare (t : Table) (s : ScopeId) (h : Heading) : Table :=
  let made := t.allocate (h.blueprint (t.scope s).owner) h.name
  match h.record? with
  | some a => made.modifyObject t.nextObject (·.assign a)
  | none => made

/-- The table with a new object as the heading shows it, declared in the scope `s`. -/
def insert (t : Table) (s : ScopeId) (h : Heading) : Table :=
  (t.prepare s h).enlist s t.nextObject

/-- The table with a new routine in the scope `s`, the body of which is entered. -/
def insertOpen (t : Table) (s : ScopeId) (h : Heading) : Table :=
  { t.insert s h with current := some t.nextScope }

variable {t t' : Table} {s u : ScopeId} {h : Heading} {p : ObjectId}

/-- What the creation brings about and records leave alone holds when an object is prepared. -/
theorem prepare_preserves {P : Table → Prop}
    (hmade : P (t.allocate (h.blueprint (t.scope s).owner) h.name))
    (hrecord : ∀ {t : Table} {o : ObjectId} {a : Assignment}, P t →
      P (t.modifyObject o (·.assign a))) : P (t.prepare s h) := by
  unfold prepare
  cases h.record? with
  | none => exact hmade
  | some a => exact hrecord hmade

theorem records_prepare :
    (t.allocate (h.blueprint (t.scope s).owner) h.name).Records (t.prepare s h) := by
  unfold prepare
  cases hrecord : h.record? with
  | none => exact .refl
  | some a =>
    refine .single ⟨_, a, hasObject_allocate.mpr (.inr rfl), ?_, rfl⟩
    rw [object_allocate, if_pos rfl, Heading.kind_of_record? hrecord, ← h.kind_blueprint]
    exact kind_newAttributes _

@[simp] theorem current_prepare : (t.prepare s h).current = t.current :=
  prepare_preserves (P := fun made => made.current = t.current) rfl id

theorem hasObject_prepare : (t.prepare s h).HasObject p ↔ t.HasObject p ∨ p = t.nextObject :=
  prepare_preserves (P := fun made => made.HasObject p ↔ _) hasObject_allocate
    hasObject_modifyObject.trans

theorem hasScope_prepare (hu : t.HasScope u) : (t.prepare s h).HasScope u :=
  prepare_preserves (P := fun made => made.HasScope u) (hasScope_allocate.mpr (.inl hu)) id

private theorem scope_prepare (u : ScopeId) : (t.prepare s h).scope u =
    if h.kind.hasBody ∧ u = t.nextScope then
      ⟨[], t.nextObject, if h.kind = .program then none else t.current⟩
    else t.scope u :=
  prepare_preserves (P := fun made => made.scope u = _)
    (by rw [scope_allocate, Heading.kind_blueprint]) id

/-- Nothing is recorded on an old object. -/
private theorem object_prepare (hp : t.HasObject p) : (t.prepare s h).object p = t.object p := by
  unfold prepare
  cases h.record? with
  | none => exact hp.object_allocate _ h.name
  | some a =>
    change ((t.allocate _ h.name).modifyObject t.nextObject (·.assign a)).object p = t.object p
    rw [object_modifyObject, if_neg fun hnew => hp.ne_nextObject hnew.1, hp.object_allocate]

theorem name_prepare : (t.prepare s h).name t.nextObject = h.name := by
  refine prepare_preserves (P := fun made => made.name t.nextObject = h.name) ?_
    fun hbefore => (name_assign _ _ _).trans hbefore
  rw [name, object_allocate, if_pos rfl]

theorem kind_prepare : ((t.prepare s h).object t.nextObject).kind = h.kind := by
  refine prepare_preserves (P := fun made => (made.object t.nextObject).kind = h.kind) ?_
    fun hbefore => (kind_assign _ _ _).trans hbefore
  rw [object_allocate, if_pos rfl, ← h.kind_blueprint]
  exact kind_newAttributes _

theorem registered_prepare (hkind : h.kind ≠ .program) :
    ((t.prepare s h).object t.nextObject).registered = false := by
  refine prepare_preserves (P := fun made => (made.object t.nextObject).registered = false) ?_
    fun hbefore => (registered_assign _ _ _).trans hbefore
  simp [object_allocate, hkind]

private theorem body?_prepare : ((t.prepare s h).object t.nextObject).body? =
    if h.kind.hasBody then some t.nextScope else none := by
  refine prepare_preserves (P := fun made => (made.object t.nextObject).body? = _) ?_
    fun hbefore => (body?_assign _ _ _).trans hbefore
  rw [object_allocate, if_pos rfl, ← h.kind_blueprint]
  exact body?_newAttributes _

/-- The new object looks as its heading shows it. -/
private theorem headings_prepare (hdeclares : h.Declares) :
    (t.prepare s h).headings = t.headings ++ [h] := by
  unfold prepare
  cases h with
  | program => simp [Heading.Declares, Heading.kind, Heading.record?] at hdeclares
  | procedure name => exact headings_allocate _ _
  | constant _ record | «alias» _ record | var _ record | function _ record
  | parameter _ _ record =>
    cases record with
    | none => simp [Heading.Declares, Heading.kind, Heading.record?] at hdeclares
    | some found => exact headings_record_allocate _ _ _

/-- Nothing but the pointer tells a table apart from one where another scope is current. -/
theorem object_moveTo (current : Option ScopeId) : { t with current }.object p = t.object p :=
  rfl

theorem scope_moveTo (current : Option ScopeId) : { t with current }.scope u = t.scope u :=
  rfl

theorem hasScope_moveTo {current : Option ScopeId} :
    { t with current }.HasScope u ↔ t.HasScope u :=
  Iff.rfl

theorem headings_moveTo (current : Option ScopeId) : { t with current }.headings = t.headings :=
  rfl

@[simp] theorem current_insert : (t.insert s h).current = t.current :=
  (current_enlist _ _).trans current_prepare

theorem hasObject_insert : (t.insert s h).HasObject p ↔ t.HasObject p ∨ p = t.nextObject :=
  hasObject_enlist.trans hasObject_prepare

/-- An old object other than the owner of the scope, which may get a parameter, is as it was. -/
theorem object_insert (hp : t.HasObject p) (howner : p ≠ (t.scope s).owner) :
    (t.insert s h).object p = t.object p := by
  have hhost : ((t.prepare s h).scope s).owner ≠ p := by
    rw [scope_prepare]
    split
    · exact hp.ne_nextObject.symm
    · exact howner.symm
  rw [insert, object_enlist, if_neg fun hnew => hp.ne_nextObject hnew.1, object_listParam,
    if_neg fun hlisted => hhost hlisted.2.1.symm, object_prepare hp]

/-- An old scope other than the one that takes the object is as it was. -/
theorem scope_insert (hu : t.HasScope u) (hne : u ≠ s) : (t.insert s h).scope u = t.scope u := by
  rw [insert, scope_enlist, if_neg fun hsame => hne hsame.1, scope_prepare,
    if_neg fun hnew => hu.ne_nextScope hnew.2]

theorem objects_insert (hs : t.HasScope s) :
    ((t.insert s h).scope s).objects = (t.scope s).objects ++ [t.nextObject] := by
  rw [insert, scope_enlist, if_pos ⟨rfl, hasScope_prepare hs⟩, scope_prepare,
    if_neg fun hnew => hs.ne_nextScope hnew.2]
  rfl

/-- The body of a new routine is an empty scope, nested in the one that takes the routine. -/
private theorem scope_insert_nextScope (hs : t.HasScope s) (hcurrent : t.current = some s)
    (hkind : h.kind ≠ .program) (hbody : h.kind.hasBody) :
    (t.insert s h).scope t.nextScope = ⟨[], t.nextObject, some s⟩ := by
  rw [insert, scope_enlist, if_neg fun hsame => hs.ne_nextScope hsame.1.symm, scope_prepare,
    if_pos ⟨hbody, rfl⟩, if_neg hkind, hcurrent]

theorem body?_insert : ((t.insert s h).object t.nextObject).body? =
    if h.kind.hasBody then some t.nextScope else none := by
  rw [insert, body?_enlist, body?_prepare]

theorem headings_insert (hdeclares : h.Declares) : (t.insert s h).headings = t.headings ++ [h] := by
  rw [insert, headings_enlist, headings_prepare hdeclares]

theorem object_insertOpen : (t.insertOpen s h).object p = (t.insert s h).object p :=
  object_moveTo _

theorem scope_insertOpen : (t.insertOpen s h).scope u = (t.insert s h).scope u :=
  scope_moveTo _

theorem headings_insertOpen : (t.insertOpen s h).headings = (t.insert s h).headings :=
  headings_moveTo _

/-- The declaration that the heading shows is accepted in the scope `s`. -/
structure Takes (t : Table) (s : ScopeId) (h : Heading) : Prop where
  inBounds : t.InBounds
  current : t.current = some s
  declares : h.Declares
  length : h.name.length ≤ t.maxIdentLength

namespace Takes

theorem hasScope (htakes : t.Takes s h) : t.HasScope s :=
  htakes.inBounds.current s htakes.current

theorem fits (htakes : t.Takes s h) : (h.blueprint (t.scope s).owner).Fits t := by
  cases h with
  | parameter => exact (htakes.inBounds.scope s htakes.hasScope).owner
  | _ => trivial

theorem kind_ne_program (htakes : t.Takes s h) (owner : ObjectId) :
    (h.blueprint owner).kind ≠ .program := by
  rw [Heading.kind_blueprint]
  exact htakes.declares.kind_ne_program

theorem creates (htakes : t.Takes s h) :
    t.Transition (t.allocate (h.blueprint (t.scope s).owner) h.name) :=
  .create h.name htakes.fits htakes.length fun hprogram =>
    absurd hprogram (htakes.kind_ne_program _)

theorem orderly (htakes : t.Takes s h) : t.Orderly (t.insert s h) :=
  .introduce htakes.current (htakes.kind_ne_program _) htakes.fits htakes.length records_prepare

theorem leadsTo (htakes : t.Takes s h) : t.LeadsTo (t.insert s h) :=
  htakes.orderly.leadsTo

theorem current_insert (htakes : t.Takes s h) : (t.insert s h).current = some s :=
  Table.current_insert.trans htakes.current

theorem scope_body (htakes : t.Takes s h) (hbody : h.kind.hasBody) :
    (t.insert s h).scope t.nextScope = ⟨[], t.nextObject, some s⟩ :=
  scope_insert_nextScope htakes.hasScope htakes.current htakes.declares.kind_ne_program hbody

theorem body? (_ : t.Takes s h) (hbody : h.kind.hasBody) :
    ((t.insert s h).object t.nextObject).body? = some t.nextScope := by
  rw [body?_insert, if_pos hbody]

/-- No new routine is predeclared. -/
theorem isOpen (htakes : t.Takes s h) (hbody : h.kind.hasBody) :
    ((t.insert s h).scope t.nextScope).owner ∉ (t.insert s h).globals := by
  rw [htakes.scope_body hbody, htakes.leadsTo.continues.globals]
  exact fun hglobal => not_hasObject_nextObject (htakes.inBounds.globals _ hglobal)

theorem outer (htakes : t.Takes s h) (hbody : h.kind.hasBody) :
    ((t.insert s h).scope t.nextScope).outer = (t.insert s h).current := by
  rw [htakes.scope_body hbody, htakes.current_insert]

theorem enterBody (htakes : t.Takes s h) (hbody : h.kind.hasBody) :
    ∃ log, (t.insert s h).enterBody t.nextObject = .accepted () (t.insertOpen s h) log := by
  unfold Table.enterBody bodyScope
  rw [htakes.body? hbody]
  exact ⟨_, enter_accepted (htakes.isOpen hbody) (htakes.outer hbody)⟩

private theorem hasScope_body (htakes : t.Takes s h) (hbody : h.kind.hasBody) :
    (t.insert s h).HasScope t.nextScope :=
  (htakes.inBounds.leadsTo htakes.leadsTo).body (htakes.body? hbody)

theorem orderlyTo_open (htakes : t.Takes s h) (hbody : h.kind.hasBody) :
    t.OrderlyTo (t.insertOpen s h) :=
  (OrderlyTo.single htakes.orderly).trans
    (.single (.enter (htakes.hasScope_body hbody) (htakes.isOpen hbody) (htakes.outer hbody)))

theorem hasScope_open (htakes : t.Takes s h) (hbody : h.kind.hasBody) :
    (t.insertOpen s h).HasScope t.nextScope :=
  hasScope_moveTo.mpr (htakes.hasScope_body hbody)

theorem leadsTo_open (htakes : t.Takes s h) (hbody : h.kind.hasBody) :
    t.LeadsTo (t.insertOpen s h) :=
  (htakes.orderlyTo_open hbody).leadsTo

theorem owner_open (htakes : t.Takes s h) (hbody : h.kind.hasBody) :
    ((t.insertOpen s h).scope t.nextScope).owner = t.nextObject := by
  rw [scope_insertOpen, htakes.scope_body hbody]

end Takes

end Table

end BlockScope
