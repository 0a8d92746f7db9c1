import BlockScope.Proofs.Session.LastRecord

namespace BlockScope

/-- The value that is recorded on a constant. -/
def Assignment.value? : Assignment → Option Literal
  | constant value => some value
  | _ => none

/-- The type that is recorded on an alias, a variable or a parameter. -/
def Assignment.declaredTy? : Assignment → Option Ty
  | .alias ty | .var ty | .parameter ty => some ty
  | .constant _ | .function _ => none

/-- The type that is recorded for the result of a function. -/
def Assignment.resultTy? : Assignment → Option Ty
  | function result => some result
  | _ => none

namespace Table

/-- How a question about the record on `o` is answered: with the record, or with the complaint that
there is none, if the object is of one of the given kinds, and else with a complaint about its
kind. -/
structure AnswersFrom {α : Type} (t : Table) (o : ObjectId) (kinds : List Kind) (expected : Role)
    (record : Option α) (answer : Except SemanticError α) : Prop where
  recorded : ∀ found, answer = .ok found ↔ record = some found
  unresolved : answer = .error (.unresolvedDeclaration (t.name o)) ↔
    (t.object o).kind ∈ kinds ∧ record = none
  mismatch : answer = .error (.kindMismatch (t.name o) expected (t.object o).kind) ↔
    (t.object o).kind ∉ kinds

/-- The questions about the record on `o` are answered from the last of the records on it in the
log, and keep their answers until the next record on it. -/
structure AnswersLast (t : Table) (o : ObjectId) (log : List (ObjectId × Assignment)) : Prop where
  none_iff : lastRecord o log = none ↔ ∀ a, (o, a) ∉ log
  some_iff : ∀ a, lastRecord o log = some a ↔
    ∃ first later, log = first ++ (o, a) :: later ∧ ∀ b, (o, b) ∉ later
  kind : ∀ a, lastRecord o log = some a → a.kind = (t.object o).kind
  constantValue : t.AnswersFrom o [.constant] (.kind .constant)
    ((lastRecord o log).bind Assignment.value?) (t.constantValue o)
  declaredType : t.AnswersFrom o [.alias, .var, .parameter] .typedDeclaration
    ((lastRecord o log).bind Assignment.declaredTy?) (t.declaredType o)
  returnType : t.AnswersFrom o [.function] (.kind .function)
    ((lastRecord o log).bind Assignment.resultTy?) (t.returnType o)
  kept : ∀ s, s.Fits t → (∀ a reply, s = .command (.assign o a) → (t.step s).result ≠ .ok reply) →
    (t.step s).table.constantValue o = t.constantValue o ∧
      (t.step s).table.declaredType o = t.declaredType o ∧
      (t.step s).table.returnType o = t.returnType o

end Table

variable {o : ObjectId}

namespace Attributes

private theorem bind_value?_recorded? (attributes : Attributes) :
    attributes.recorded?.bind Assignment.value? = attributes.value? := by
  cases attributes with
  | constant value => cases value <;> rfl
  | «alias» actual => cases actual <;> rfl
  | var ty home => cases ty <;> rfl
  | function params result body => cases result <;> rfl
  | parameter ty mode owner => cases ty <;> rfl
  | _ => rfl

/-- The type of a function is that of its result. -/
private theorem bind_ty?_recorded? (attributes : Attributes) :
    attributes.recorded?.bind Assignment.declaredTy? =
        (if attributes.kind = .function then none else attributes.ty?) ∧
      attributes.recorded?.bind Assignment.resultTy? =
        (if attributes.kind = .function then attributes.ty? else none) := by
  cases attributes with
  | constant value => cases value <;> exact ⟨rfl, rfl⟩
  | «alias» actual => cases actual <;> exact ⟨rfl, rfl⟩
  | var ty home => cases ty <;> exact ⟨rfl, rfl⟩
  | function params result body => cases result <;> exact ⟨rfl, rfl⟩
  | parameter ty mode owner => cases ty <;> exact ⟨rfl, rfl⟩
  | _ => exact ⟨rfl, rfl⟩

end Attributes

namespace Table

variable {α : Type} {t t' : Table} {kinds : List Kind} {expected : Role} {record : Option α}

namespace AnswersFrom

private theorem of_mem (hkind : (t.object o).kind ∈ kinds) :
    t.AnswersFrom o kinds expected record (t.recorded o record) := by
  cases record with
  | none => constructor <;> simp [Table.recorded, hkind]
  | some found => constructor <;> simp [Table.recorded, hkind]

private theorem of_not_mem (hkind : (t.object o).kind ∉ kinds) (hnone : record = none) :
    t.AnswersFrom o kinds expected record (.error (t.mismatch o expected)) :=
  ⟨by simp [hnone], by simp [Table.mismatch, hkind], by simp [Table.mismatch, hkind]⟩

/-- Name, kind and record of an object determine the answer. -/
theorem unique {answer answer' : Except SemanticError α}
    (h : t.AnswersFrom o kinds expected record answer)
    (h' : t'.AnswersFrom o kinds expected record answer') (hname : t'.name o = t.name o)
    (hkind : (t'.object o).kind = (t.object o).kind) : answer' = answer := by
  by_cases hmem : (t.object o).kind ∈ kinds
  · cases hrecord : record with
    | none =>
      rw [h.unresolved.mpr ⟨hmem, hrecord⟩, h'.unresolved.mpr ⟨hkind ▸ hmem, hrecord⟩, hname]
    | some found => rw [(h.recorded found).mpr hrecord, (h'.recorded found).mpr hrecord]
  · rw [h.mismatch.mpr hmem, h'.mismatch.mpr (hkind ▸ hmem), hname, hkind]

/-- Where the kind fits, nothing but a missing record is in the way of an answer. -/
theorem eq_unresolved {answer : Except SemanticError α}
    (h : t.AnswersFrom o kinds expected record answer) (hkind : (t.object o).kind ∈ kinds)
    {e : SemanticError} (herror : answer = .error e) : e = .unresolvedDeclaration (t.name o) := by
  cases hrecord : record with
  | none =>
    rw [h.unresolved.mpr ⟨hkind, hrecord⟩] at herror
    exact (Except.error.inj herror).symm
  | some found =>
    rw [(h.recorded found).mpr hrecord] at herror
    cases herror

end AnswersFrom

theorem constantValue_answersFrom (t : Table) (o : ObjectId) :
    t.AnswersFrom o [.constant] (.kind .constant)
      ((t.object o).attributes.recorded?.bind Assignment.value?) (t.constantValue o) := by
  rw [Attributes.bind_value?_recorded?]
  unfold constantValue
  cases hattributes : (t.object o).attributes with
  | constant value => exact .of_mem (by simp [Object.kind, hattributes, Attributes.kind])
  | _ => exact .of_not_mem (by simp [Object.kind, hattributes, Attributes.kind]) rfl

theorem declaredType_answersFrom (t : Table) (o : ObjectId) :
    t.AnswersFrom o [.alias, .var, .parameter] .typedDeclaration
      ((t.object o).attributes.recorded?.bind Assignment.declaredTy?) (t.declaredType o) := by
  rw [(Attributes.bind_ty?_recorded? _).1]
  unfold declaredType
  cases hattributes : (t.object o).attributes with
  | «alias» actual => exact .of_mem (by simp [Object.kind, hattributes, Attributes.kind])
  | var ty home => exact .of_mem (by simp [Object.kind, hattributes, Attributes.kind])
  | parameter ty mode owner => exact .of_mem (by simp [Object.kind, hattributes, Attributes.kind])
  | _ => exact .of_not_mem (by simp [Object.kind, hattributes, Attributes.kind]) rfl

theorem returnType_answersFrom (t : Table) (o : ObjectId) :
    t.AnswersFrom o [.function] (.kind .function)
      ((t.object o).attributes.recorded?.bind Assignment.resultTy?) (t.returnType o) := by
  rw [(Attributes.bind_ty?_recorded? _).2]
  unfold returnType
  cases hattributes : (t.object o).attributes with
  | function params result body =>
    exact .of_mem (by simp [Object.kind, hattributes, Attributes.kind])
  | _ => exact .of_not_mem (by simp [Object.kind, hattributes, Attributes.kind]) rfl

/-- What leaves name, kind and record of an object alone changes no answer about the record. -/
theorem answers_eq (hname : t'.name o = t.name o) (hkind : (t'.object o).kind = (t.object o).kind)
    (hrecorded : (t'.object o).attributes.recorded? = (t.object o).attributes.recorded?) :
    t'.constantValue o = t.constantValue o ∧ t'.declaredType o = t.declaredType o ∧
      t'.returnType o = t.returnType o := by
  have hvalue := t'.constantValue_answersFrom o
  have hdeclared := t'.declaredType_answersFrom o
  have hresult := t'.returnType_answersFrom o
  rw [hrecorded] at hvalue hdeclared hresult
  exact ⟨(t.constantValue_answersFrom o).unique hvalue hname hkind,
    (t.declaredType_answersFrom o).unique hdeclared hname hkind,
    (t.returnType_answersFrom o).unique hresult hname hkind⟩

/-- **The last record counts.** After any session, the questions about the value, the type and the
result type of an object are answered from the last record on it that the session has made, or, for
a predeclared routine or parameter, that the table began with. The record is always of the object's
kind. Where the kind fits and there is no record, the object is reported to be unresolved, and where
the kind does not fit, this is what is reported. No step changes any of these answers but an
accepted record on the object itself. -/
theorem answers_after {limit : Nat} {steps : List Step} (hadmits : (initial limit).Admits steps)
    {o : ObjectId} (ho : ((initial limit).after steps).HasObject o) :
    ((initial limit).after steps).AnswersLast o
      (predeclaredRecords ++ (initial limit).recordsDuring steps) := by
  let t := (initial limit).after steps
  have hrecorded := recorded?_after_initial hadmits o
  refine ⟨lastRecord_eq_none_iff, fun a => lastRecord_eq_some_iff, fun a ha => ?_, ?_, ?_, ?_,
    fun s hfits hother => ?_⟩
  · exact Attributes.kind_of_recorded? (hrecorded.trans ha)
  · rw [← hrecorded]
    exact t.constantValue_answersFrom o
  · rw [← hrecorded]
    exact t.declaredType_answersFrom o
  · rw [← hrecorded]
    exact t.returnType_answersFrom o
  · have hbounds : t.InBounds := ((Reachable.initial limit).after hadmits).inBounds
    have hgrows := (step_leadsTo hbounds hfits).growsTo
    refine answers_eq (hgrows.name_eq ho) (hgrows.grown ho).kind ?_
    have hnone : lastRecord o (t.recordsOf s) = none := by
      refine lastRecord_eq_none_iff.mpr fun a hmem => ?_
      obtain ⟨hs, reply, hresult⟩ := (mem_recordsOf ho).mp hmem
      exact hother a reply hs hresult
    rw [recorded?_step_eq_lastRecord hbounds hfits, hnone, Option.none_or]

/-- A variable whose type is recorded twice and then refused a value, a constant without a value, a
predeclared function that gets another result type, and the reference program. -/
def rerecorded : List Step :=
  [.command (.create .var "v"), .command (.assign ⟨7⟩ (.var .int)),
   .command (.create .constant "c"), .command (.assign ⟨7⟩ (.var .char)),
   .command (.assign ⟨0⟩ (.function .int)), .command (.assign ⟨7⟩ (.constant (.int 1))),
   .command .loadReference]

theorem answers_after_rerecorded :
    let t := (initial 15).after rerecorded
    (initial 15).Admits rerecorded ∧ t.declaredType ⟨7⟩ = .ok .char ∧
      t.constantValue ⟨7⟩ = .error (.kindMismatch "v" (.kind .constant) .var) ∧
      t.constantValue ⟨8⟩ = .error (.unresolvedDeclaration "c") ∧ t.returnType ⟨0⟩ = .ok .int ∧
      t.declaredType ⟨3⟩ = .ok .int ∧ t.constantValue ⟨10⟩ = .ok (.int 10) ∧
      (t.step (.command (.assign ⟨8⟩ (.constant (.int 1))))).table.declaredType ⟨7⟩ =
        .ok .char := by
  intro t
  have hadmits : (initial 15).Admits rerecorded := by decide +kernel
  have hv := answers_after hadmits (o := ⟨7⟩) (by decide +kernel)
  have hc := answers_after hadmits (o := ⟨8⟩) (by decide +kernel)
  have hreadc := answers_after hadmits (o := ⟨0⟩) (by decide +kernel)
  have hi := answers_after hadmits (o := ⟨3⟩) (by decide +kernel)
  have hloaded := answers_after hadmits (o := ⟨10⟩) (by decide +kernel)
  have htype : t.declaredType ⟨7⟩ = .ok .char :=
    (hv.declaredType.recorded _).mpr (by decide +kernel)
  refine ⟨hadmits, htype, hv.constantValue.mismatch.mpr (by decide +kernel),
    hc.constantValue.unresolved.mpr (by decide +kernel),
    (hreadc.returnType.recorded _).mpr (by decide +kernel),
    (hi.declaredType.recorded _).mpr (by decide +kernel),
    (hloaded.constantValue.recorded _).mpr (by decide +kernel), ?_⟩
  have hkept := hv.kept (.command (.assign ⟨8⟩ (.constant (.int 1)))) (by decide +kernel)
    fun a reply heq => absurd heq (by simp)
  exact hkept.2.1.trans htype

end Table

end BlockScope
