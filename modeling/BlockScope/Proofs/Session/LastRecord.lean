import BlockScope.Proofs.Declarations.Headings
import BlockScope.Proofs.Session.Growth
import BlockScope.Proofs.Session.Recorded

namespace BlockScope

/-- The record that a heading shows. -/
def Heading.recorded? : Heading → Option Assignment
  | constant _ value => value.map .constant
  | .alias _ actual => actual.map .alias
  | var _ ty => ty.map .var
  | function _ result => result.map .function
  | parameter _ _ ty => ty.map .parameter
  | program _ | procedure _ => none

/-- The records on objects with the given headings, which are numbered from `first` on. -/
def recordsFrom : (first : Nat) → List Heading → List (ObjectId × Assignment)
  | _, [] => []
  | i, h :: later => (h.recorded?.map fun a => (⟨i⟩, a)).toList ++ recordsFrom (i + 1) later

/-- The last of the records that were made on `o`. -/
def lastRecord (o : ObjectId) : List (ObjectId × Assignment) → Option Assignment
  | [] => none
  | (p, a) :: later => (lastRecord o later).or (if p = o then some a else none)

/-- The records with which every table begins. -/
def predeclaredRecords : List (ObjectId × Assignment) :=
  [(⟨0⟩, .function .char), (⟨1⟩, .function .int), (⟨3⟩, .parameter .int), (⟨5⟩, .parameter .char)]

namespace Table

/-- The records that a step makes: one if it is to make one and is accepted, and those of all
declarations if it loads the reference program to its end. -/
def recordsOf (t : Table) (s : Step) : List (ObjectId × Assignment) :=
  match s, (t.step s).result with
  | .command (.assign o a), .ok _ => [(o, a)]
  | .command .loadReference, .ok _ => recordsFrom t.objects.size Program.reference.headings
  | _, _ => []

/-- The records that a session makes, in the order in which it makes them. -/
def recordsDuring (t : Table) : List Step → List (ObjectId × Assignment)
  | [] => []
  | s :: steps => t.recordsOf s ++ (t.step s).table.recordsDuring steps

end Table

variable {o : ObjectId} {log first later : List (ObjectId × Assignment)} {a : Assignment}

theorem lastRecord_append (o : ObjectId) (first later : List (ObjectId × Assignment)) :
    lastRecord o (first ++ later) = (lastRecord o later).or (lastRecord o first) := by
  induction first with
  | nil => exact Option.or_none.symm
  | cons r first ih =>
    obtain ⟨p, a⟩ := r
    rw [List.cons_append, lastRecord, ih, lastRecord, Option.or_assoc]

theorem lastRecord_eq_none_iff : lastRecord o log = none ↔ ∀ a, (o, a) ∉ log := by
  induction log with
  | nil => exact ⟨fun _ _ => List.not_mem_nil, fun _ => rfl⟩
  | cons r later ih =>
    obtain ⟨p, b⟩ := r
    by_cases heq : p = o
    · subst heq
      simp only [lastRecord, if_true, Option.or_eq_none_iff, reduceCtorEq, and_false, false_iff]
      exact fun hnone => hnone b List.mem_cons_self
    · simp [lastRecord, heq, ih, Ne.symm heq]

/-- It is a record on the object, and all later ones are on other objects. -/
theorem lastRecord_eq_some_iff : lastRecord o log = some a ↔
    ∃ first later, log = first ++ (o, a) :: later ∧ ∀ b, (o, b) ∉ later := by
  constructor
  · intro hlast
    induction log with
    | nil => cases hlast
    | cons r log ih =>
      obtain ⟨p, b⟩ := r
      cases hlater : lastRecord o log with
      | some c =>
        rw [lastRecord, hlater] at hlast
        obtain ⟨first, later, rfl, hnone⟩ := ih (hlater.trans hlast)
        exact ⟨(p, b) :: first, later, rfl, hnone⟩
      | none =>
        rw [lastRecord, hlater, Option.none_or] at hlast
        obtain ⟨rfl, rfl⟩ : p = o ∧ b = a := by simpa using hlast
        exact ⟨[], log, rfl, lastRecord_eq_none_iff.mp hlater⟩
  · rintro ⟨first, later, rfl, hnone⟩
    rw [lastRecord_append, lastRecord, lastRecord_eq_none_iff.mpr hnone]
    simp

/-- Objects with headings show what was last recorded on them. -/
private theorem lastRecord_recordsFrom (i : Nat) (headings : List Heading) (o : ObjectId) :
    lastRecord o (recordsFrom i headings) =
      if i ≤ o.index then (headings[o.index - i]?).bind Heading.recorded? else none := by
  induction headings generalizing i with
  | nil => simp [recordsFrom, lastRecord]
  | cons h later ih =>
    have hfirst : lastRecord o (h.recorded?.map fun a => (⟨i⟩, a)).toList =
        if i = o.index then h.recorded? else none := by
      cases h.recorded? <;> simp [lastRecord, ObjectId.eq_iff]
    rw [recordsFrom, lastRecord_append, ih, hfirst]
    obtain hlt | heq | hgt := Nat.lt_trichotomy i o.index
    · obtain ⟨k, hk⟩ : ∃ k, o.index - i = k + 1 := ⟨o.index - i - 1, by omega⟩
      have hnext : o.index - (i + 1) = k := by omega
      simp [Nat.succ_le_of_lt hlt, Nat.le_of_lt hlt, Nat.ne_of_lt hlt, hk, hnext]
    · simp [heq]
    · simp [Nat.not_le_of_gt hgt, Nat.ne_of_gt hgt, Nat.not_le_of_gt (Nat.lt_succ_of_lt hgt)]

private theorem recordsFrom_append (i : Nat) (first later : List Heading) :
    recordsFrom i (first ++ later) =
      recordsFrom i first ++ recordsFrom (i + first.length) later := by
  induction first generalizing i with
  | nil => rfl
  | cons h first ih =>
    rw [List.cons_append, recordsFrom, recordsFrom, ih, List.append_assoc, List.length_cons,
      Nat.add_assoc, Nat.add_comm 1]

/-- A heading shows what is recorded on the object. -/
private theorem Object.recorded?_heading (o : Object) :
    o.heading.recorded? = o.attributes.recorded? := by
  unfold Object.heading
  cases o.attributes <;> rfl

namespace Table

variable {t : Table} {s : Step}

/-- The headings of all objects show the records on them. -/
private theorem lastRecord_headings (t : Table) (o : ObjectId) :
    lastRecord o (recordsFrom 0 t.headings) = (t.object o).attributes.recorded? := by
  rw [lastRecord_recordsFrom, if_pos (Nat.zero_le _), Nat.sub_zero]
  by_cases ho : t.HasObject o
  · rw [ho.getElem?_headings, Option.bind_some, Object.recorded?_heading]
  · have hnone : t.headings[o.index]? = none := by
      rw [List.getElem?_eq_none_iff, length_headings]
      exact Nat.le_of_not_lt ho
    rw [hnone, object_of_not_hasObject ho]
    rfl

private theorem recordsFrom_headings_initial (limit : Nat) :
    recordsFrom 0 (initial limit).headings = predeclaredRecords :=
  rfl

/-- A new object has nothing recorded on it. -/
private theorem recordsFrom_allocate (i : Nat) (b : Blueprint) (name : String) :
    recordsFrom i [Object.heading ⟨name, t.newAttributes b, b.kind = .program⟩] = [] := by
  cases b <;> rfl

/-- Loading the reference program adds objects, which show the records that this makes. -/
private theorem exists_headings_load (h : t.InBounds) :
    ∃ added, (t.step (.command .loadReference)).table.headings = t.headings ++ added ∧
      t.recordsOf (.command .loadReference) = recordsFrom t.objects.size added := by
  obtain ⟨e, _, hrefused⟩ | ⟨hresult, htable⟩ | ⟨_, ⟨o, hload⟩, _⟩ :=
    Program.load_cases (p := .reference) h (by decide)
  · refine ⟨[], ?_, ?_⟩
    · simp only [step, perform, hrefused]
      exact (List.append_nil _).symm
    · simp only [recordsOf, step, perform, hrefused]
      rfl
  · refine ⟨_, (congrArg headings htable).trans (headings_allocate .program _),
      .trans ?_ (recordsFrom_allocate _ .program Program.reference.name).symm⟩
    simp only [recordsOf, step, perform, Outcome.map, hresult]
    rfl
  · refine ⟨_, Program.reference.headings_load h hload, ?_⟩
    simp only [recordsOf, step, perform, Outcome.map, hload]
    rfl

/-- A step other than a record only adds objects, which show the records that it makes. -/
private theorem exists_headings_step (h : t.InBounds) (hother : ∀ p a, s ≠ .command (.assign p a)) :
    ∃ added, (t.step s).table.headings = t.headings ++ added ∧
      t.recordsOf s = recordsFrom t.objects.size added := by
  by_cases hload : s = .command .loadReference
  · subst hload
    exact exists_headings_load h
  · have hnothing : t.headings = t.headings ++ [] := (List.append_nil _).symm
    have hnone : t.recordsOf s = [] := by
      cases s with
      | query q => rfl
      | command c =>
        cases c with
        | assign p a => exact absurd rfl (hother p a)
        | loadReference => exact absurd rfl hload
        | _ => rfl
    have heffect := t.step_effect s
    generalize (t.step s).table = after at heffect ⊢
    cases heffect with
    | none => exact ⟨[], hnothing, hnone⟩
    | @create b name hlength hfirst =>
      exact ⟨_, headings_allocate b name, hnone.trans (recordsFrom_allocate _ b name).symm⟩
    | createScope => exact ⟨[], hnothing, hnone⟩
    | @assign p a hkind => exact absurd rfl (hother p a)
    | enter hopen houter => exact ⟨[], hnothing, hnone⟩
    | exit hcurrent => exact ⟨[], hnothing, hnone⟩
    | @declare u p hcurrent hfresh => exact ⟨[], (headings_enlist u p).trans hnothing, hnone⟩
    | loadReference => exact absurd rfl hload

/-- What is recorded on an object after a step is the last record on it that the step makes, if it
makes any. -/
theorem recorded?_step_eq_lastRecord (h : t.InBounds) (hfits : s.Fits t) (o : ObjectId) :
    ((t.step s).table.object o).attributes.recorded? =
      (lastRecord o (t.recordsOf s)).or (t.object o).attributes.recorded? := by
  by_cases hrecord : ∃ p a, s = .command (.assign p a)
  · obtain ⟨p, a, rfl⟩ := hrecord
    obtain ⟨e, hrefused⟩ | ⟨haccepted, hkind⟩ := t.assign_cases p a
    · simp only [recordsOf, step, perform, hrefused]
      rfl
    · simp only [recordsOf, step, perform, haccepted]
      change ((t.modifyObject p (·.assign a)).object o).attributes.recorded? =
        (lastRecord o [(p, a)]).or _
      have hp : t.HasObject p := hfits
      rw [object_modifyObject]
      by_cases heq : o = p
      · subst heq
        rw [if_pos ⟨rfl, hp⟩, lastRecord, if_pos rfl]
        exact Attributes.recorded?_assign hkind
      · rw [if_neg fun hsame => heq hsame.1, lastRecord, if_neg (Ne.symm heq)]
        rfl
  · obtain ⟨added, hadded, hrecords⟩ :=
      exists_headings_step h fun p a heq => hrecord ⟨p, a, heq⟩
    rw [← lastRecord_headings, hadded, recordsFrom_append, lastRecord_append, lastRecord_headings,
      length_headings, Nat.zero_add, ← hrecords]

/-- The last record on an object counts, in whatever order records are made, objects are created
and declared, and blocks are opened and closed. -/
theorem recorded?_after_eq_lastRecord (h : t.InBounds) {steps : List Step}
    (hadmits : t.Admits steps) (o : ObjectId) :
    ((t.after steps).object o).attributes.recorded? =
      (lastRecord o (t.recordsDuring steps)).or (t.object o).attributes.recorded? := by
  induction steps generalizing t with
  | nil => rfl
  | cons s steps ih =>
    have hrest := ih (h.leadsTo (step_leadsTo h hadmits.1)) hadmits.2
    rw [recordsDuring, lastRecord_append, Option.or_assoc,
      ← recorded?_step_eq_lastRecord h hadmits.1]
    exact hrest

theorem recorded?_after_initial {limit : Nat} {steps : List Step}
    (hadmits : (initial limit).Admits steps) (o : ObjectId) :
    (((initial limit).after steps).object o).attributes.recorded? =
      lastRecord o (predeclaredRecords ++ (initial limit).recordsDuring steps) := by
  have hafter := recorded?_after_eq_lastRecord (initial_inBounds limit) hadmits o
  rwa [← lastRecord_headings (initial limit), recordsFrom_headings_initial,
    ← lastRecord_append] at hafter

/-- On an object that was there before, a step makes a record only if it is one. -/
theorem mem_recordsOf (ho : t.HasObject o) : (o, a) ∈ t.recordsOf s ↔
    s = .command (.assign o a) ∧ ∃ reply, (t.step s).result = .ok reply := by
  have hloaded : (o, a) ∉ recordsFrom t.objects.size Program.reference.headings := by
    refine lastRecord_eq_none_iff.mp ?_ a
    rw [lastRecord_recordsFrom, if_neg (Nat.not_le_of_lt ho)]
  constructor
  · intro hmem
    unfold recordsOf at hmem
    split at hmem
    · rename_i hresult
      obtain ⟨rfl, rfl⟩ := Prod.mk.inj (List.mem_singleton.mp hmem)
      exact ⟨rfl, _, hresult⟩
    · exact absurd hmem hloaded
    · cases hmem
  · rintro ⟨rfl, reply, hresult⟩
    unfold recordsOf
    rw [hresult]
    exact List.mem_singleton_self _

end Table

end BlockScope
