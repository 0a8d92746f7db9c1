import BlockScope.Proofs.Session.Blind
import BlockScope.Proofs.Session.LastRecord
import BlockScope.Proofs.Session.Refusal

namespace BlockScope

/-- What is to be recorded on `o`, if the step is to record something there. -/
def Step.recordOn? (o : ObjectId) : Step → Option Assignment
  | command (.assign p a) => if p = o then some a else none
  | _ => none

/-- The last of the records that is of the given kind. -/
def lastOfKind (kind : Kind) (records : List Assignment) : Option Assignment :=
  (records.filter fun a => a.kind = kind).getLast?

/-- The session without the steps that are to record something, whether or not they succeed. -/
def withoutRecords (steps : List Step) : List Step :=
  steps.filter fun s => !s.isAssign

namespace Table

/-- What a session answers and reports, apart from its records and from the questions about what
is recorded. -/
def transcript (t : Table) : List Step → List (Step × Except SemanticError Reply × List Event)
  | [] => []
  | s :: steps =>
    (if s.isAssign || s.asksRecord then [] else [(s, (t.step s).result, (t.step s).log)]) ++
      (t.step s).table.transcript steps

end Table

private theorem withoutRecords_cons_of_isAssign {s : Step} (h : s.isAssign) (steps : List Step) :
    withoutRecords (s :: steps) = withoutRecords steps := by
  simp [withoutRecords, h]

private theorem withoutRecords_cons_of_not_isAssign {s : Step} (h : ¬ s.isAssign)
    (steps : List Step) :
    withoutRecords (s :: steps) = s :: withoutRecords steps := by
  simp [withoutRecords, h]

/-- What a record does not show, the bare attributes do. -/
private theorem Attributes.ext_bare {attributes attributes' : Attributes}
    (hbare : attributes.bare = attributes'.bare)
    (hrecorded : attributes.recorded? = attributes'.recorded?) : attributes = attributes' := by
  cases hrecord : attributes.recorded? with
  | some a =>
    rw [eq_assign_of_recorded? hrecord, eq_assign_of_recorded? (hrecorded.symm.trans hrecord),
      hbare]
  | none =>
    rw [eq_bare_of_recorded? hrecord, eq_bare_of_recorded? (hrecorded.symm.trans hrecord), hbare]

namespace Table

variable {t t' : Table} {s : Step} {o : ObjectId}

private theorem bare_object_eq (hsame : t.bare = t'.bare) (o : ObjectId) :
    (t.object o).bare = (t'.object o).bare := by
  rw [← object_bare, hsame, object_bare]

private theorem hasObject_congr (hsame : t.bare = t'.bare) : t.HasObject o ↔ t'.HasObject o := by
  rw [← hasObject_bare, hsame, hasObject_bare]

private theorem size_objects_congr (hsame : t.bare = t'.bare) :
    t.objects.size = t'.objects.size := by
  have hboth := congrArg (fun t : Table => t.objects.size) hsame
  simpa [bare] using hboth

private theorem kind_congr (hsame : t.bare = t'.bare) (o : ObjectId) :
    (t.object o).kind = (t'.object o).kind := by
  rw [← Object.kind_bare, bare_object_eq hsame, Object.kind_bare]

/-- Tables agree if they do so without types and values, and the same has been recorded on all
objects. -/
private theorem ext_bare (hsame : t.bare = t'.bare)
    (hrecorded : ∀ o, (t.object o).attributes.recorded? = (t'.object o).attributes.recorded?) :
    t = t' := by
  have hobject (o : ObjectId) : t.object o = t'.object o := by
    obtain ⟨hname, hattributes, hregistered⟩ := Object.mk.inj (bare_object_eq hsame o)
    have hrest := Attributes.ext_bare hattributes (hrecorded o)
    cases hfirst : t.object o
    cases hsecond : t'.object o
    simp_all
  have hobjects : t.objects = t'.objects := by
    refine Array.ext (size_objects_congr hsame) fun i hi hi' => ?_
    simpa [object, hi, hi'] using hobject ⟨i⟩
  obtain ⟨hlimit, _, hscopes, hprogram, hglobals, hcurrent⟩ := Table.mk.inj hsame
  cases t
  cases t'
  congr

private theorem fits_congr (hsame : t.bare = t'.bare) : s.Fits t ↔ s.Fits t' := by
  have hobject (o : ObjectId) : t.HasObject o ↔ t'.HasObject o := hasObject_congr hsame
  have hscope (u : ScopeId) : t.HasScope u ↔ t'.HasScope u := by
    rw [← hasScope_bare, hsame, hasScope_bare]
  cases s with
  | query q => exact Iff.rfl
  | command c =>
    cases c with
    | create b name => cases b <;> simp [Step.Fits, Command.Fits, Blueprint.Fits, hobject]
    | _ => simp [Step.Fits, Command.Fits, hobject, hscope]

/-- Whatever is answered, a step does the same to both tables but for types and values. -/
private theorem bare_step_congr (hsame : t.bare = t'.bare) (s : Step) :
    (t.step s).table.bare = (t'.step s).table.bare := by
  cases s with
  | command c => exact (perform_blind c).table_eq hsame
  | query q => exact hsame

private theorem admits_congr (hsame : t.bare = t'.bare) {steps : List Step} :
    t.Admits steps ↔ t'.Admits steps := by
  induction steps generalizing t t' with
  | nil => exact Iff.rfl
  | cons s steps ih => exact and_congr (fits_congr hsame) (ih (bare_step_congr hsame s))

/-- A record leaves the table as it is but for types and values. -/
private theorem bare_step_of_isAssign (h : s.isAssign) : (t.step s).table.bare = t.bare := by
  have heffect := t.step_effect s
  generalize (t.step s).table = after at heffect ⊢
  cases heffect with
  | none => rfl
  | assign hkind => exact bare_record _ _
  | _ => cases h

/-- Without its records, a session gives the same answers and reports, and ends with the same table
but for types and values. -/
theorem transcript_withoutRecords (hsame : t.bare = t'.bare) (steps : List Step) :
    t.transcript steps = t'.transcript (withoutRecords steps) ∧
      (t.after steps).bare = (t'.after (withoutRecords steps)).bare := by
  induction steps generalizing t t' with
  | nil => exact ⟨rfl, hsame⟩
  | cons s steps ih =>
    by_cases hassign : s.isAssign
    · obtain ⟨htranscript, hafter⟩ := ih ((bare_step_of_isAssign hassign).trans hsame)
      rw [withoutRecords_cons_of_isAssign hassign, transcript, hassign]
      exact ⟨htranscript, hafter⟩
    · obtain ⟨htranscript, hafter⟩ := ih (bare_step_congr hsame s)
      rw [withoutRecords_cons_of_not_isAssign hassign, transcript, transcript, htranscript]
      refine ⟨congrArg (· ++ _) ?_, hafter⟩
      cases hasks : s.asksRecord with
      | true => simp
      | false =>
        have hblind := step_blind hasks
        simp [hassign, hblind.result_eq hsame, hblind.log_eq hsame]

/-- The records of a step depend on nothing that is recorded. -/
private theorem recordsOf_congr (hsame : t.bare = t'.bare) (s : Step) :
    t.recordsOf s = t'.recordsOf s := by
  cases s with
  | query q => rfl
  | command c =>
    have hresult := (perform_blind c).result_eq hsame
    simp only [recordsOf, step, hresult, size_objects_congr hsame]

private theorem recordsDuring_congr (hsame : t.bare = t'.bare) (steps : List Step) :
    t.recordsDuring steps = t'.recordsDuring steps := by
  induction steps generalizing t t' with
  | nil => rfl
  | cons s steps ih =>
    rw [recordsDuring, recordsDuring, recordsOf_congr hsame, ih (bare_step_congr hsame s)]

theorem admits_withoutRecords (hsame : t.bare = t'.bare) {steps : List Step}
    (hadmits : t.Admits steps) : t'.Admits (withoutRecords steps) := by
  induction steps generalizing t t' with
  | nil => trivial
  | cons s steps ih =>
    by_cases hassign : s.isAssign
    · rw [withoutRecords_cons_of_isAssign hassign]
      exact ih ((bare_step_of_isAssign hassign).trans hsame) hadmits.2
    · rw [withoutRecords_cons_of_not_isAssign hassign]
      exact ⟨(fits_congr hsame).mp hadmits.1, ih (bare_step_congr hsame s) hadmits.2⟩

/-- Where nothing is to be recorded, no records are made on the objects that are there already. -/
private theorem lastRecord_eq_none_of_no_assign (h : t.InBounds) (ho : t.HasObject o)
    {steps : List Step}
    (hadmits : t.Admits steps) (hnone : ∀ s ∈ steps, s.isAssign = false) :
    lastRecord o (t.recordsDuring steps) = none := by
  induction steps generalizing t with
  | nil => rfl
  | cons s steps ih =>
    have hleads := step_leadsTo h hadmits.1
    have hrest := ih (h.leadsTo hleads) (hleads.within.object ho) hadmits.2
      fun s' hs' => hnone s' (List.mem_cons_of_mem _ hs')
    have hfirst : lastRecord o (t.recordsOf s) = none := by
      refine lastRecord_eq_none_iff.mpr fun a hmem => ?_
      obtain ⟨rfl, _⟩ := (mem_recordsOf ho).mp hmem
      cases hnone _ List.mem_cons_self
    rw [recordsDuring, lastRecord_append, hrest, hfirst]
    rfl

/-- A record is made if it is of the object's kind. -/
private theorem lastRecord_recordsOf_assign (o p : ObjectId) (a : Assignment) :
    lastRecord o (t.recordsOf (.command (.assign p a))) =
      if p = o ∧ a.kind = (t.object p).kind then some a else none := by
  by_cases hkind : (t.object p).kind = a.kind
  · simp only [recordsOf, step, perform, assign_accepted hkind]
    simp [Outcome.accepted, Outcome.map, Except.map, lastRecord, hkind]
  · have hrefused : t.assign p a = .refused (t.mismatch p (.kind a.kind)) t := if_neg hkind
    simp only [recordsOf, step, perform, hrefused]
    simp [Outcome.refused, Outcome.map, Except.map, lastRecord, Ne.symm hkind]

end Table

private theorem lastOfKind_cons (kind : Kind) (a : Assignment) (records : List Assignment) :
    lastOfKind kind (a :: records) =
      (lastOfKind kind records).or (if a.kind = kind then some a else none) := by
  unfold lastOfKind
  by_cases hkind : a.kind = kind
  · simp [hkind, List.getLast?_cons]
  · simp [hkind]

namespace Table

variable {t t' : Table} {s : Step} {o : ObjectId}

/-- What is recorded last in a session is the last record that is of the object's kind, and does not
depend on the other steps. If there is none, it is what the object has been loaded with. -/
theorem lastRecord_recordsDuring (h : t.InBounds) {steps : List Step} (hadmits : t.Admits steps)
    (o : ObjectId) : lastRecord o (t.recordsDuring steps) =
      (lastOfKind ((t.after steps).object o).kind (steps.filterMap (Step.recordOn? o))).or
        (lastRecord o (t.recordsDuring (withoutRecords steps))) := by
  induction steps generalizing t with
  | nil => rfl
  | cons s steps ih =>
    have hleads := step_leadsTo h hadmits.1
    have hrest := ih (h.leadsTo hleads) hadmits.2
    have hafter : t.after (s :: steps) = (t.step s).table.after steps := rfl
    rw [recordsDuring, lastRecord_append, hrest, hafter]
    by_cases hassign : s.isAssign
    · obtain ⟨p, a, rfl⟩ : ∃ p a, s = .command (.assign p a) := by
        cases s with
        | query q => cases hassign
        | command c => cases c with
          | assign p a => exact ⟨p, a, rfl⟩
          | _ => cases hassign
      have hp : t.HasObject p := hadmits.1
      have hsame : (t.step (.command (.assign p a))).table.bare = t.bare :=
        bare_step_of_isAssign rfl
      rw [withoutRecords_cons_of_isAssign rfl, recordsDuring_congr hsame,
        lastRecord_recordsOf_assign]
      by_cases heq : p = o
      · subst heq
        have hnone : lastRecord p (t.recordsDuring (withoutRecords steps)) = none := by
          refine lastRecord_eq_none_of_no_assign h hp (admits_withoutRecords hsame hadmits.2) ?_
          simp [withoutRecords]
        have hkind := ((after_leadsTo h hadmits).growsTo.grown hp).kind
        rw [hafter] at hkind
        have hon : (Step.command (.assign p a)).recordOn? p = some a := if_pos rfl
        rw [List.filterMap_cons_some hon, lastOfKind_cons, hnone, Option.or_none, Option.or_none,
          hkind]
        simp only [true_and]
      · have hon : (Step.command (.assign p a)).recordOn? o = none := if_neg heq
        rw [List.filterMap_cons_none hon, if_neg fun hsame => heq hsame.1, Option.or_none]
    · have hon : s.recordOn? o = none := by
        cases s with
        | query q => rfl
        | command c => cases c with
          | assign p a => exact absurd rfl hassign
          | _ => rfl
      rw [withoutRecords_cons_of_not_isAssign hassign, recordsDuring, lastRecord_append,
        List.filterMap_cons_none hon, Option.or_assoc]

/-- Two sessions that differ in nothing but where they make their records, and make those on the
same object in the same order, end with the same table. -/
theorem after_eq_of_same_records (h : t.InBounds) {steps steps' : List Step}
    (hadmits : t.Admits steps) (hadmits' : t.Admits steps')
    (hrest : withoutRecords steps = withoutRecords steps')
    (hon : ∀ o, steps.filterMap (Step.recordOn? o) = steps'.filterMap (Step.recordOn? o)) :
    t.after steps = t.after steps' := by
  have hsame : (t.after steps).bare = (t.after steps').bare := by
    rw [(transcript_withoutRecords rfl steps).2, hrest, ← (transcript_withoutRecords rfl steps').2]
  refine ext_bare hsame fun o => ?_
  rw [recorded?_after_eq_lastRecord h hadmits, recorded?_after_eq_lastRecord h hadmits',
    lastRecord_recordsDuring h hadmits, lastRecord_recordsDuring h hadmits', kind_congr hsame,
    hrest, hon]

/-- A record on an object of the table can be made at any time. -/
private theorem admits_insert {before later : List Step} (hadmits : t.Admits (before ++ later))
    (ho : (t.after before).HasObject o) (a : Assignment) :
    t.Admits (before ++ .command (.assign o a) :: later) := by
  obtain ⟨hbefore, hlater⟩ := admits_append.mp hadmits
  have hsame :
      ((t.after before).step (.command (.assign o a))).table.bare = (t.after before).bare :=
    bare_step_of_isAssign rfl
  exact admits_append.mpr ⟨hbefore, ho, (admits_congr hsame).mpr hlater⟩

/-- **Types and values influence nothing else.** Two sessions that are the same without their
records, whether these succeed or not, give the same answers and reports wherever they do not ask
for types and values, and end with the same table but for these. If both make their records on
objects that exist, and those on the same object in the same order, they end with the same table. So
a record on an object that exists can be made earlier or later, as long as no other record on the
object is made in between. -/
theorem records_move (limit : Nat) :
    let t := initial limit
    (∀ steps steps', withoutRecords steps = withoutRecords steps' →
        t.transcript steps = t.transcript steps' ∧
          (t.after steps).bare = (t.after steps').bare) ∧
      (∀ steps steps', t.Admits steps → t.Admits steps' →
        withoutRecords steps = withoutRecords steps' →
        (∀ o, steps.filterMap (Step.recordOn? o) = steps'.filterMap (Step.recordOn? o)) →
        t.after steps = t.after steps') ∧
      ∀ before between later o a, t.Admits (before ++ between ++ later) →
        (t.after before).HasObject o → (∀ s ∈ between, s.recordOn? o = none) →
        let early := before ++ .command (.assign o a) :: (between ++ later)
        let late := (before ++ between) ++ .command (.assign o a) :: later
        t.Admits early ∧ t.Admits late ∧ t.transcript early = t.transcript late ∧
          t.after early = t.after late := by
  intro t
  have hbounds : t.InBounds := initial_inBounds limit
  have hsame : ∀ steps steps', withoutRecords steps = withoutRecords steps' →
      t.transcript steps = t.transcript steps' ∧ (t.after steps).bare = (t.after steps').bare := by
    intro steps steps' hrest
    obtain ⟨htranscript, hafter⟩ := transcript_withoutRecords (rfl : t.bare = t.bare) steps
    obtain ⟨htranscript', hafter'⟩ := transcript_withoutRecords (rfl : t.bare = t.bare) steps'
    rw [htranscript, htranscript', hafter, hafter', hrest]
    exact ⟨rfl, rfl⟩
  refine ⟨hsame, fun steps steps' => after_eq_of_same_records hbounds,
    fun before between later o a hadmits ho hbetween => ?_⟩
  intro early late
  have hlater : (t.after (before ++ between)).HasObject o := by
    obtain ⟨hfirst, hsecond⟩ := admits_append.mp (admits_append.mp hadmits).1
    rw [after_append]
    exact (after_leadsTo (hbounds.leadsTo (after_leadsTo hbounds hfirst)) hsecond).within.object ho
  have hearly : t.Admits early :=
    admits_insert (by rwa [← List.append_assoc]) ho a
  have hlate : t.Admits late := admits_insert hadmits hlater a
  have hrest : withoutRecords early = withoutRecords late := by
    simp [withoutRecords, early, late, Step.isAssign]
  have hon (p : ObjectId) :
      early.filterMap (Step.recordOn? p) = late.filterMap (Step.recordOn? p) := by
    by_cases heq : o = p
    · subst heq
      have hnone : between.filterMap (Step.recordOn? o) = [] :=
        List.filterMap_eq_nil_iff.mpr hbetween
      have hown : (Step.command (.assign o a)).recordOn? o = some a := if_pos rfl
      simp [early, late, hnone, hown]
    · have hother : (Step.command (.assign o a)).recordOn? p = none := if_neg heq
      simp [early, late, hother]
  exact ⟨hearly, hlate, (hsame _ _ hrest).1,
    after_eq_of_same_records hbounds hearly hlate hrest hon⟩

/-- The type of a variable is recorded before it is declared, and once more before it is looked
up. A record on the program is refused. -/
def typedEarly : List Step :=
  inProgram ++ [.command (.create .var "v"), .command (.assign ⟨8⟩ (.var .int)),
    .command (.assign ⟨8⟩ (.var .char)), .command (.assign ⟨7⟩ (.var .int)),
    .command (.declare ⟨8⟩), .query (.lookup "v")]

/-- The same records are made after the variable has been declared. -/
def typedLate : List Step :=
  inProgram ++ [.command (.create .var "v"), .command (.assign ⟨7⟩ (.var .int)),
    .command (.declare ⟨8⟩), .command (.assign ⟨8⟩ (.var .int)), .query (.lookup "v"),
    .command (.assign ⟨8⟩ (.var .char))]

theorem records_move_typed :
    let t := initial 15
    withoutRecords typedEarly = withoutRecords typedLate ∧
      t.transcript typedEarly = t.transcript typedLate ∧ t.after typedEarly = t.after typedLate ∧
      t.after (inProgram ++ [.command (.assign ⟨7⟩ (.var .int)), .command .exit]) =
        t.after (inProgram ++ [.command .exit, .command (.assign ⟨7⟩ (.var .int))]) := by
  intro t
  obtain ⟨hsame, hafter, hmove⟩ := records_move 15
  have hrest : withoutRecords typedEarly = withoutRecords typedLate := by decide
  have hon (o : ObjectId) : typedEarly.filterMap (Step.recordOn? o) =
      typedLate.filterMap (Step.recordOn? o) := by
    by_cases hfirst : o = ⟨7⟩
    · subst hfirst
      decide
    · by_cases hsecond : o = ⟨8⟩
      · subst hsecond
        decide
      · simp [typedEarly, typedLate, inProgram, List.filterMap_cons, Step.recordOn?, Ne.symm hfirst,
          Ne.symm hsecond]
  exact ⟨hrest, (hsame _ _ hrest).1,
    hafter typedEarly typedLate (by decide) (by decide) hrest hon,
    (hmove inProgram [.command .exit] [] ⟨7⟩ (.var .int) (by decide) (by decide)
      (by decide)).2.2.2⟩

end Table

end BlockScope
