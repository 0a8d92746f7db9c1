import BlockScope.Proofs.Declarations.Insert

namespace BlockScope

namespace Table

/-- What becomes of a table when declarations are loaded into the scope `s`, which is current. One
by one they are taken, up to the end or up to a name that is too long. The block of a routine is
loaded into its body, from which loading returns to `s`. -/
inductive Loads :
    Table → ScopeId → Forest Heading → Except SemanticError Unit → Table → Prop
  | done {t : Table} {s : ScopeId} (hcurrent : t.current = some s) : Loads t s .nil (.ok ()) t
  | refused {t : Table} {s : ScopeId} {h : Heading} {below after : Forest Heading}
      (hlong : t.maxIdentLength < h.name.length) :
      Loads t s (.cons h below after) (.error (.identTooLong h.name t.maxIdentLength)) t
  | plain {t t' : Table} {s : ScopeId} {h : Heading} {after : Forest Heading}
      {result : Except SemanticError Unit} (htakes : t.Takes s h) (hplain : h.kind.hasBody = false)
      (hafter : Loads (t.insert s h) s after result t') : Loads t s (.cons h .nil after) result t'
  | inside {t t' : Table} {s : ScopeId} {h : Heading} {below after : Forest Heading}
      {e : SemanticError} (htakes : t.Takes s h) (hbody : h.kind.hasBody)
      (hbelow : Loads (t.insertOpen s h) t.nextScope below (.error e) t') :
      Loads t s (.cons h below after) (.error e) t'
  | routine {t filled t' : Table} {s : ScopeId} {h : Heading} {below after : Forest Heading}
      {result : Except SemanticError Unit} (htakes : t.Takes s h) (hbody : h.kind.hasBody)
      (hbelow : Loads (t.insertOpen s h) t.nextScope below (.ok ()) filled)
      (hafter : Loads { filled with current := some s } s after result t') :
      Loads t s (.cons h below after) result t'

namespace Loads

variable {t t' filled : Table} {s u : ScopeId} {p : ObjectId} {f below after : Forest Heading}
  {result : Except SemanticError Unit}

theorem current_eq (h : t.Loads s f (.ok ()) t') : t'.current = some s := by
  generalize hresult : Except.ok () = result at h
  induction h with
  | done hcurrent => exact hcurrent
  | refused => cases hresult
  | plain _ _ _ ih => exact ih hresult
  | inside => cases hresult
  | routine _ _ _ _ _ ihAfter => exact ihAfter hresult

/-- When the block of a routine has been loaded, its body is still linked to the scope from which it
was entered. -/
theorem outer_back {hd : Heading} (htakes : t.Takes s hd) (hbody : hd.kind.hasBody)
    (hfilled : (t.insertOpen s hd).LeadsTo filled) :
    (filled.scope t.nextScope).outer = some s := by
  rw [hfilled.continues.outer (htakes.hasScope_open hbody), scope_insertOpen,
    htakes.scope_body hbody]

private theorem orderlyTo_back {hd : Heading} (htakes : t.Takes s hd) (hbody : hd.kind.hasBody)
    (hfilled : (t.insertOpen s hd).OrderlyTo filled)
    (hcurrent : filled.current = some t.nextScope) :
    (t.insertOpen s hd).OrderlyTo { filled with current := some s } := by
  have hleave := Orderly.exit hcurrent
  rw [outer_back htakes hbody hfilled.leadsTo] at hleave
  exact hfilled.trans (.single hleave)

theorem orderlyTo (h : t.Loads s f result t') : t.OrderlyTo t' := by
  induction h with
  | done | refused => exact .refl _
  | plain htakes _ _ ih => exact (OrderlyTo.single htakes.orderly).trans ih
  | inside htakes hbody _ ih => exact (htakes.orderlyTo_open hbody).trans ih
  | routine htakes hbody hbelow _ ihBelow ihAfter =>
    have hback := orderlyTo_back htakes hbody ihBelow hbelow.current_eq
    exact ((htakes.orderlyTo_open hbody).trans hback).trans ihAfter

theorem leadsTo (h : t.Loads s f result t') : t.LeadsTo t' :=
  h.orderlyTo.leadsTo

theorem leadsTo_back {hd : Heading} (htakes : t.Takes s hd) (hbody : hd.kind.hasBody)
    (hbelow : (t.insertOpen s hd).Loads t.nextScope below (.ok ()) filled) :
    (t.insertOpen s hd).LeadsTo { filled with current := some s } :=
  (orderlyTo_back htakes hbody hbelow.orderlyTo hbelow.current_eq).leadsTo

theorem leadsTo_filled {hd : Heading} (htakes : t.Takes s hd) (hbody : hd.kind.hasBody)
    (hbelow : (t.insertOpen s hd).Loads t.nextScope below (.ok ()) filled) :
    t.LeadsTo { filled with current := some s } :=
  (htakes.leadsTo_open hbody).trans (leadsTo_back htakes hbody hbelow)

/-- Loading changes no old scope but the one that is loaded into. -/
theorem scope_eq (h : t.Loads s f result t') (hu : t.HasScope u) (hne : u ≠ s) :
    t'.scope u = t.scope u := by
  induction h with
  | done | refused => rfl
  | plain htakes _ _ ih => rw [ih (htakes.leadsTo.within.scope hu) hne, scope_insert hu hne]
  | inside htakes hbody _ ih =>
    rw [ih ((htakes.leadsTo_open hbody).within.scope hu) hu.ne_nextScope, scope_insertOpen,
      scope_insert hu hne]
  | routine htakes hbody hbelow _ ihBelow ihAfter =>
    have hback := leadsTo_filled htakes hbody hbelow
    rw [ihAfter (hback.within.scope hu) hne, scope_moveTo,
      ihBelow ((htakes.leadsTo_open hbody).within.scope hu) hu.ne_nextScope, scope_insertOpen,
      scope_insert hu hne]

/-- Loading changes no old object but the owner of the scope that is loaded into. -/
theorem object_eq (h : t.Loads s f result t') (hp : t.HasObject p)
    (howner : p ≠ (t.scope s).owner) : t'.object p = t.object p := by
  induction h with
  | done | refused => rfl
  | plain htakes _ _ ih =>
    rw [ih (htakes.leadsTo.within.object hp), object_insert hp howner]
    rwa [htakes.leadsTo.continues.owner htakes.hasScope]
  | inside htakes hbody _ ih =>
    rw [ih ((htakes.leadsTo_open hbody).within.object hp), object_insertOpen,
      object_insert hp howner]
    rw [htakes.owner_open hbody]
    exact hp.ne_nextObject
  | routine htakes hbody hbelow _ ihBelow ihAfter =>
    have hback := leadsTo_filled htakes hbody hbelow
    rw [ihAfter (hback.within.object hp), object_moveTo,
      ihBelow ((htakes.leadsTo_open hbody).within.object hp), object_insertOpen,
      object_insert hp howner]
    · rw [htakes.owner_open hbody]
      exact hp.ne_nextObject
    · rwa [hback.continues.owner htakes.hasScope]

/-- What has been loaded to the end has made its objects in the order in which they are written,
with their types and values recorded. -/
theorem headings_eq (h : t.Loads s f (.ok ()) t') : t'.headings = t.headings ++ f.preorder := by
  generalize hresult : Except.ok () = result at h
  induction h with
  | done => exact (List.append_nil _).symm
  | refused | inside => cases hresult
  | plain htakes _ _ ih =>
    rw [ih hresult, headings_insert htakes.declares, List.append_assoc]
    rfl
  | routine htakes _ _ _ ihBelow ihAfter =>
    rw [ihAfter hresult, headings_moveTo, ihBelow rfl, headings_insertOpen,
      headings_insert htakes.declares]
    simp [Forest.preorder]

/-- Only the length of a name can stop loading. -/
theorem eq_ok (h : t.Loads s f result t')
    (hnames : ∀ hd ∈ f.preorder, hd.name.length ≤ t.maxIdentLength) : result = .ok () := by
  induction h with
  | done => rfl
  | refused hlong => exact absurd hlong (Nat.not_lt_of_le (hnames _ List.mem_cons_self))
  | plain htakes _ _ ih =>
    refine ih fun hd hmem => ?_
    rw [htakes.leadsTo.continues.limit]
    exact hnames hd (List.mem_cons_of_mem _ hmem)
  | inside htakes hbody _ ih =>
    refine ih fun hd hmem => ?_
    rw [(htakes.leadsTo_open hbody).continues.limit]
    exact hnames hd (List.mem_cons_of_mem _ (List.mem_append_left _ hmem))
  | routine htakes hbody hbelow _ _ ihAfter =>
    refine ihAfter fun hd hmem => ?_
    rw [(leadsTo_filled htakes hbody hbelow).continues.limit]
    exact hnames hd (List.mem_cons_of_mem _ (List.mem_append_right _ hmem))

end Loads

end Table

/-- The operation declares what the heading shows in the scope `s`, or its name is too long. -/
def Outcome.Introduces (t : Table) (s : ScopeId) (h : Heading) (o : Outcome ObjectId) : Prop :=
  (t.maxIdentLength < h.name.length ∧
      o = .refused (.identTooLong h.name t.maxIdentLength) t) ∨
    (h.name.length ≤ t.maxIdentLength ∧ o.result = .ok t.nextObject ∧ o.table = t.insert s h)

namespace Table

variable {t : Table} {s : ScopeId} {h : Heading}

/-- In an entered scope, only the length of its name can keep an object out. -/
private theorem introduce_introduces {a : Assignment} (hcurrent : t.current = some s)
    (hrecord : h.record? = some a) :
    (t.introduce (h.blueprint (t.scope s).owner) h.name a).Introduces t s h := by
  have hdeclares : h.Declares := .inr (Option.isSome_of_eq_some hrecord)
  by_cases hlong : t.maxIdentLength < h.name.length
  · refine .inl ⟨hlong, ?_⟩
    unfold introduce create
    rw [if_pos hlong]
    rfl
  · have hlength := Nat.le_of_not_lt hlong
    have hprepare : t.prepare s h = (t.allocate (h.blueprint (t.scope s).owner) h.name).modifyObject
        t.nextObject (·.assign a) := by
      rw [prepare, hrecord]
    have hcreate := create_accepted (t := t) (b := h.blueprint (t.scope s).owner) hlength
      fun hprogram => absurd ((h.kind_blueprint _).symm.trans hprogram) hdeclares.kind_ne_program
    have hassign : (t.allocate (h.blueprint (t.scope s).owner) h.name).assign t.nextObject a =
        .accepted () (t.prepare s h) [] := by
      rw [hprepare]
      apply assign_accepted
      rw [object_allocate, if_pos rfl, Heading.kind_of_record? hrecord, ← h.kind_blueprint]
      exact kind_newAttributes _
    have hdeclare := declare_accepted (s := s) (t := t.prepare s h)
      (current_prepare.trans hcurrent) (registered_prepare hdeclares.kind_ne_program)
    refine .inr ⟨hlength, ?_⟩
    unfold introduce
    rw [hcreate]
    simp only [Outcome.result_andThen_accepted, Outcome.table_andThen_accepted]
    rw [hassign]
    simp only [Outcome.result_andThen_accepted, Outcome.table_andThen_accepted]
    rw [hdeclare]
    exact ⟨rfl, rfl⟩

private theorem introduceParam_introduces (name : String) (mode : ParamMode) (ty : Ty)
    (hcurrent : t.current = some s) :
    (t.introduceParam name mode ty).Introduces t s (.parameter name mode (some ty)) := by
  unfold introduceParam
  rw [hcurrent]
  exact introduce_introduces (h := .parameter name mode (some ty)) hcurrent rfl

private theorem introduceProcedure_introduces (name : String) (hcurrent : t.current = some s) :
    (t.introduceProcedure name).Introduces t s (.procedure name) := by
  by_cases hlong : t.maxIdentLength < name.length
  · refine .inl ⟨hlong, ?_⟩
    unfold introduceProcedure create
    rw [if_pos hlong]
    rfl
  · have hlength := Nat.le_of_not_lt hlong
    have hcreate := create_accepted (t := t) (b := .procedure) hlength nofun
    have hdeclare := declare_accepted (s := s) (t := t.prepare s (.procedure name))
      (current_prepare.trans hcurrent) (registered_prepare nofun)
    refine .inr ⟨hlength, ?_⟩
    unfold introduceProcedure
    rw [hcreate]
    simp only [Outcome.result_andThen_accepted, Outcome.table_andThen_accepted]
    change ((Table.declare (t.prepare s (.procedure name)) _).andThen _).result = _ ∧
      ((Table.declare (t.prepare s (.procedure name)) _).andThen _).table = _
    rw [hdeclare]
    exact ⟨rfl, rfl⟩

end Table

namespace Outcome.Introduces

open Table

variable {t : Table} {s : ScopeId} {h : Heading} {first : Outcome ObjectId}
  {body rest : Declarations}

/-- The rest of the declarations is loaded where the first one has been made. -/
private theorem loads_plain (hfirst : first.Introduces t s h) (hbounds : t.InBounds)
    (hcurrent : t.current = some s) (hdeclares : h.Declares) (hplain : h.kind.hasBody = false)
    (hrest : ∀ {t : Table}, t.InBounds → t.current = some s →
      t.Loads s rest.forest (rest.load t).result (rest.load t).table) :
    let out := first.andThen fun _ t => rest.load t
    t.Loads s (.cons h .nil rest.forest) out.result out.table := by
  intro out
  obtain ⟨hlong, rfl⟩ | ⟨hlength, hresult, htable⟩ := hfirst
  · exact .refused hlong
  · have htakes : t.Takes s h := ⟨hbounds, hcurrent, hdeclares, hlength⟩
    rw [Outcome.result_andThen_of_ok hresult, Outcome.table_andThen_of_ok hresult, htable]
    exact .plain htakes hplain (hrest (hbounds.leadsTo htakes.leadsTo) htakes.current_insert)

/-- The block of a routine is loaded into its body, and the rest where the routine has been made. -/
private theorem loads_routine (hfirst : first.Introduces t s h) (hbounds : t.InBounds)
    (hcurrent : t.current = some s) (hdeclares : h.Declares) (hbody : h.kind.hasBody)
    (hbelow : ∀ {t : Table} {s : ScopeId}, t.InBounds → t.current = some s →
      t.Loads s body.forest (body.load t).result (body.load t).table)
    (hrest : ∀ {t : Table}, t.InBounds → t.current = some s →
      t.Loads s rest.forest (rest.load t).result (rest.load t).table) :
    let out := first.andThen fun o t => (t.enterBody o).andThen fun _ t =>
      (body.load t).andThen fun _ t => t.exit.andThen fun _ t => rest.load t
    t.Loads s (.cons h body.forest rest.forest) out.result out.table := by
  intro out
  obtain ⟨hlong, rfl⟩ | ⟨hlength, hresult, htable⟩ := hfirst
  · exact .refused hlong
  · have htakes : t.Takes s h := ⟨hbounds, hcurrent, hdeclares, hlength⟩
    obtain ⟨log, henter⟩ := htakes.enterBody hbody
    have hblock := hbelow (hbounds.leadsTo (htakes.orderlyTo_open hbody).leadsTo) rfl
    rw [Outcome.result_andThen_of_ok hresult, Outcome.table_andThen_of_ok hresult, htable, henter,
      Outcome.result_andThen_accepted, Outcome.table_andThen_accepted]
    cases hend : (body.load (t.insertOpen s h)).result with
    | error e =>
      rw [hend] at hblock
      rw [Outcome.result_andThen_of_error hend, Outcome.table_andThen_of_error hend]
      exact .inside htakes hbody hblock
    | ok _ =>
      rw [hend] at hblock
      rw [Outcome.result_andThen_of_ok hend, Outcome.table_andThen_of_ok hend,
        exit_accepted hblock.current_eq, Outcome.result_andThen_accepted,
        Outcome.table_andThen_accepted, Loads.outer_back htakes hbody hblock.leadsTo]
      refine .routine htakes hbody hblock (hrest ?_ rfl)
      exact hbounds.leadsTo (Loads.leadsTo_filled htakes hbody hblock)

end Outcome.Introduces

open Table

theorem Declarations.load_loads (d : Declarations) {t : Table} {s : ScopeId} (h : t.InBounds)
    (hcurrent : t.current = some s) :
    t.Loads s d.forest (d.load t).result (d.load t).table := by
  induction d generalizing t s with
  | done => exact .done hcurrent
  | constant name value rest ih =>
    exact (introduce_introduces (h := .constant name (some value)) hcurrent rfl).loads_plain h
      hcurrent (.inr rfl) rfl ih
  | «alias» name actual rest ih =>
    exact (introduce_introduces (h := .alias name (some actual)) hcurrent rfl).loads_plain h
      hcurrent (.inr rfl) rfl ih
  | var name ty rest ih =>
    exact (introduce_introduces (h := .var name (some ty)) hcurrent rfl).loads_plain h hcurrent
      (.inr rfl) rfl ih
  | parameter name mode ty rest ih =>
    exact (introduceParam_introduces name mode ty hcurrent).loads_plain h hcurrent (.inr rfl) rfl ih
  | function name result body rest ihBody ihRest =>
    exact (introduce_introduces (h := .function name (some result)) hcurrent rfl).loads_routine h
      hcurrent (.inr rfl) rfl ihBody ihRest
  | procedure name body rest ihBody ihRest =>
    exact (introduceProcedure_introduces name hcurrent).loads_routine h hcurrent (.inl rfl) rfl
      ihBody ihRest

end BlockScope
