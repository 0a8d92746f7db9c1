import BlockScope.Dump
import BlockScope.Proofs.Predeclared.Sealed
import BlockScope.Proofs.Session.Recorded

namespace BlockScope

/-- The dump of the predeclared routines, given the types of the two results and of the two
parameters. -/
def predeclaredOutline (readc readi i ch : Ty) : String :=
  String.join
    ["Function READC : " ++ readc.text ++ "\n",
     "Function READI : " ++ readi.text ++ "\n",
     "Procedure WRITEI\n",
     "    Param i : " ++ i.text ++ "\n",
     "Procedure WRITEC\n",
     "    Param ch : " ++ ch.text ++ "\n",
     "Procedure WRITELN\n"]

/-- The headings of the predeclared routines, with those of their parameters below them. -/
def predeclaredHeadings (readc readi i ch : Ty) : Forest Heading :=
  .cons (.function "READC" (some readc)) .nil <| .cons (.function "READI" (some readi)) .nil <|
    .cons (.procedure "WRITEI") (.cons (.parameter "i" .byValue (some i)) .nil .nil) <|
    .cons (.procedure "WRITEC") (.cons (.parameter "ch" .byValue (some ch)) .nil .nil) <|
    .cons (.procedure "WRITELN") .nil .nil

private theorem render_predeclaredHeadings (readc readi i ch : Ty) :
    (predeclaredHeadings readc readi i ch).render 0 = predeclaredOutline readc readi i ch := by
  simp only [Forest.render, predeclaredHeadings, Forest.outline, List.nil_append, List.map_cons,
    List.cons_append, List.map_nil, Heading.line, Heading.text, Heading.orUnknown, Option.map_some,
    ← String.append_assoc]
  rfl

/-- The predeclared routines, with their parameters below them. -/
def predeclaredForest : Forest ObjectId :=
  .cons ⟨0⟩ .nil <| .cons ⟨1⟩ .nil <| .cons ⟨2⟩ (.cons ⟨3⟩ .nil .nil) <|
    .cons ⟨4⟩ (.cons ⟨5⟩ .nil .nil) <| .cons ⟨6⟩ .nil .nil

namespace Table

variable {t : Table} {o : ObjectId}

private theorem unfold_nil (t : Table) (depth : Nat) : t.unfold depth [] = some .nil := by
  cases depth <;> rfl

/-- The bodies of the predeclared routines contain what they contained at the beginning. -/
theorem Sealed.contents_eq (h : t.Sealed) (ho : (initial t.maxIdentLength).HasObject o) :
    t.contents o = (initial t.maxIdentLength).contents o := by
  have hbare := congrArg Attributes.body? (h.bare o ho)
  rw [Attributes.body?_bare, Attributes.body?_bare] at hbare
  have hsame : (t.object o).body? = ((initial t.maxIdentLength).object o).body? := hbare
  unfold contents
  rw [hsame]
  cases hbody : ((initial t.maxIdentLength).object o).body? with
  | none => rfl
  | some s => exact congrArg Scope.objects (h.sameScope s ((initial_inBounds _).body hbody))

private theorem Sealed.forest?_globals (h : t.Sealed) :
    t.forest? t.globals = some predeclaredForest := by
  have hsize : 6 < t.objects.size := h.object (o := ⟨6⟩) (by simp [hasObject_initial])
  obtain ⟨depth, hdepth⟩ : ∃ depth, t.objects.size = depth + 2 := ⟨t.objects.size - 2, by omega⟩
  have hcontents {i : Nat} (hi : i < 7) : t.contents ⟨i⟩ =
      if i = 2 then [⟨3⟩] else if i = 4 then [⟨5⟩] else [] := by
    rw [h.contents_eq hi]
    interval_cases i <;> simp [contents, object, objects_initial, scope, scopes_initial,
      Object.body?, Attributes.body?]
  unfold forest?
  rw [hdepth, h.globals, globals_initial]
  simp [unfold, unfold_nil, hcontents, predeclaredForest]

/-- What is recorded on the objects of a new table, and what a session records on them, is all that
there is to know of their attributes. -/
private theorem attributes_after_initial {limit : Nat} {steps : List Step}
    (hadmits : (initial limit).Admits steps) (ho : (initial limit).HasObject o)
    {first : Assignment} (hfirst : ((initial limit).object o).attributes.recorded? = some first) :
    ∃ a, (initial limit).recordAfter o (some first) steps = some a ∧
      a.kind = ((initial limit).object o).kind ∧
      (((initial limit).after steps).object o).attributes =
        ((initial limit).object o).attributes.bare.assign a := by
  have hbounds := initial_inBounds limit
  have hsealed := ((Reachable.initial limit).after hadmits).isSealed
  have hlimit : ((initial limit).after steps).maxIdentLength = limit :=
    (after_leadsTo hbounds hadmits).continues.limit
  have hrecorded := recorded?_after hbounds ho hadmits
  rw [hfirst] at hrecorded
  have hsome : ((initial limit).recordAfter o (some first) steps).isSome :=
    isSome_recordAfter (initial limit) o rfl steps
  obtain ⟨a, ha⟩ := Option.isSome_iff_exists.mp hsome
  rw [ha] at hrecorded
  have hbare := hsealed.bare o (hlimit.symm ▸ ho)
  have hkind := hsealed.kind_eq (hlimit.symm ▸ ho)
  rw [hlimit] at hbare hkind
  refine ⟨a, ha, (Attributes.kind_of_recorded? hrecorded).trans hkind, ?_⟩
  rw [← hbare]
  exact Attributes.eq_assign_of_recorded? hrecorded

/-- The types of the predeclared routines, in the order of their declaration. -/
structure PredeclaredTypes (t : Table) (readc readi i ch : Ty) : Prop where
  readc : (t.object ⟨0⟩).attributes = .function [] (some readc) ⟨0⟩
  readi : (t.object ⟨1⟩).attributes = .function [] (some readi) ⟨1⟩
  writei : (t.object ⟨3⟩).attributes = .parameter (some i) .byValue ⟨2⟩
  writec : (t.object ⟨5⟩).attributes = .parameter (some ch) .byValue ⟨4⟩

private theorem heading_of_procedure {o : Object} (h : o.kind = .procedure) :
    o.heading = .procedure o.name := by
  unfold Object.kind at h
  unfold Object.heading
  cases hattributes : o.attributes with
  | procedure params body => rfl
  | _ =>
    rw [hattributes] at h
    cases h

/-- What the dump of the predeclared routines shows depends on their types only. -/
theorem Sealed.dumpGlobals?_eq (h : t.Sealed) {readc readi i ch : Ty}
    (htypes : t.PredeclaredTypes readc readi i ch) :
    t.dumpGlobals? = some (predeclaredOutline readc readi i ch) := by
  have hold {i : Nat} (hi : i < 7) : (initial t.maxIdentLength).HasObject ⟨i⟩ := hi
  have hname {i : Nat} (hi : i < 7) : (t.object ⟨i⟩).name =
      ["READC", "READI", "WRITEI", "i", "WRITEC", "ch", "WRITELN"].getD i "" := by
    refine (h.name ⟨i⟩ (hold hi)).trans ?_
    interval_cases i <;> simp [Table.name, Table.object, objects_initial]
  have hprocedure {i : Nat} (hi : i = 2 ∨ i = 4 ∨ i = 6) : (t.object ⟨i⟩).kind = .procedure := by
    rw [h.kind_eq (hold (by omega))]
    obtain rfl | rfl | rfl := hi <;>
      simp [Table.object, objects_initial, Object.kind, Attributes.kind]
  have hheadings : predeclaredForest.map (fun o => (t.object o).heading) =
      predeclaredHeadings readc readi i ch := by
    have hreadc : (t.object ⟨0⟩).heading = .function "READC" (some readc) := by
      unfold Object.heading
      rw [htypes.readc, hname (by omega)]
      rfl
    have hreadi : (t.object ⟨1⟩).heading = .function "READI" (some readi) := by
      unfold Object.heading
      rw [htypes.readi, hname (by omega)]
      rfl
    have hi : (t.object ⟨3⟩).heading = .parameter "i" .byValue (some i) := by
      unfold Object.heading
      rw [htypes.writei, hname (by omega)]
      rfl
    have hch : (t.object ⟨5⟩).heading = .parameter "ch" .byValue (some ch) := by
      unfold Object.heading
      rw [htypes.writec, hname (by omega)]
      rfl
    simp only [predeclaredForest, predeclaredHeadings, Forest.map, hreadc, hreadi, hi, hch]
    rw [heading_of_procedure (hprocedure (by omega)), heading_of_procedure (hprocedure (by omega)),
      heading_of_procedure (hprocedure (by omega)), hname (by omega), hname (by omega),
      hname (by omega)]
    rfl
  unfold dumpGlobals? dumpList?
  rw [h.forest?_globals, Option.map_some, hheadings, render_predeclaredHeadings]

private theorem function_after_initial {limit : Nat} {steps : List Step}
    (hadmits : (initial limit).Admits steps) (ho : (initial limit).HasObject o) (ty : Ty)
    (body : ScopeId)
    (hinitial : ((initial limit).object o).attributes = .function [] (some ty) body) :
    ∃ result, (initial limit).recordAfter o (some (.function ty)) steps =
        some (.function result) ∧
      (((initial limit).after steps).object o).attributes = .function [] (some result) body := by
  have hfirst : ((initial limit).object o).attributes.recorded? = some (.function ty) := by
    rw [hinitial]
    rfl
  obtain ⟨a, hrecord, hkind, hattributes⟩ := attributes_after_initial hadmits ho hfirst
  unfold Object.kind at hkind
  rw [hinitial] at hkind hattributes
  cases a <;> cases hkind
  exact ⟨_, hrecord, hattributes⟩

private theorem parameter_after_initial {limit : Nat} {steps : List Step}
    (hadmits : (initial limit).Admits steps) (ho : (initial limit).HasObject o) (ty : Ty)
    (owner : ObjectId)
    (hinitial : ((initial limit).object o).attributes = .parameter (some ty) .byValue owner) :
    ∃ ty', (initial limit).recordAfter o (some (.parameter ty)) steps = some (.parameter ty') ∧
      (((initial limit).after steps).object o).attributes =
        .parameter (some ty') .byValue owner := by
  have hfirst : ((initial limit).object o).attributes.recorded? = some (.parameter ty) := by
    rw [hinitial]
    rfl
  obtain ⟨a, hrecord, hkind, hattributes⟩ := attributes_after_initial hadmits ho hfirst
  unfold Object.kind at hkind
  rw [hinitial] at hkind hattributes
  cases a <;> cases hkind
  exact ⟨_, hrecord, hattributes⟩

/-- The types of the predeclared routines after a session are those recorded last, or where nothing
has been recorded those that they were made with. -/
private theorem predeclaredTypes_after {limit : Nat} {steps : List Step}
    (hadmits : (initial limit).Admits steps) :
    ∃ readc readi i ch : Ty,
      (initial limit).recordAfter ⟨0⟩ (some (.function .char)) steps = some (.function readc) ∧
      (initial limit).recordAfter ⟨1⟩ (some (.function .int)) steps = some (.function readi) ∧
      (initial limit).recordAfter ⟨3⟩ (some (.parameter .int)) steps = some (.parameter i) ∧
      (initial limit).recordAfter ⟨5⟩ (some (.parameter .char)) steps = some (.parameter ch) ∧
      ((initial limit).after steps).PredeclaredTypes readc readi i ch := by
  have hold {i : Nat} (hi : i < 7) : (initial limit).HasObject ⟨i⟩ := hi
  obtain ⟨readc, hreadc, hreadc'⟩ := function_after_initial hadmits (hold (by omega : 0 < 7))
    .char ⟨0⟩ (by simp [object, objects_initial])
  obtain ⟨readi, hreadi, hreadi'⟩ := function_after_initial hadmits (hold (by omega : 1 < 7))
    .int ⟨1⟩ (by simp [object, objects_initial])
  obtain ⟨i, hi, hi'⟩ := parameter_after_initial hadmits (hold (by omega : 3 < 7))
    .int ⟨2⟩ (by simp [object, objects_initial])
  obtain ⟨ch, hch, hch'⟩ := parameter_after_initial hadmits (hold (by omega : 5 < 7))
    .char ⟨4⟩ (by simp [object, objects_initial])
  exact ⟨readc, readi, i, ch, hreadc, hreadi, hi, hch, ⟨hreadc', hreadi', hi', hch'⟩⟩

namespace PredeclaredTypes

variable {readc readi i ch : Ty}

/-- These are the answers to the questions for the types of the predeclared routines. -/
theorem answers (h : t.PredeclaredTypes readc readi i ch) :
    t.returnType ⟨0⟩ = .ok readc ∧ t.returnType ⟨1⟩ = .ok readi ∧
      t.declaredType ⟨3⟩ = .ok i ∧ t.declaredType ⟨5⟩ = .ok ch := by
  unfold returnType declaredType
  rw [h.readc, h.readi, h.writei, h.writec]
  exact ⟨rfl, rfl, rfl, rfl⟩

theorem initial (limit : Nat) : (initial limit).PredeclaredTypes .char .int .int .char := by
  constructor <;> simp [object, objects_initial]

end PredeclaredTypes

/-- The predeclared routines have the types that they were made with, and are shown with them. -/
def SignaturesKept (t : Table) : Prop :=
  t.returnType ⟨0⟩ = .ok .char ∧ t.returnType ⟨1⟩ = .ok .int ∧
    t.declaredType ⟨3⟩ = .ok .int ∧ t.declaredType ⟨5⟩ = .ok .char ∧
    t.dumpGlobals? = (initial t.maxIdentLength).dumpGlobals?

instance (t : Table) : Decidable t.SignaturesKept :=
  inferInstanceAs (Decidable (_ ∧ _))

/-- **Signatures of the predeclared routines.** A session answers for the result of a predeclared
function, or for the parameter of a predeclared procedure, the type that it last recorded on it, or
else the one that it was made with, and the dump shows these four types. So the signatures are kept
exactly if the last record on each of the four, where there is one, repeats its first type: records
are the one way to change a predeclared routine. -/
theorem signaturesKept_iff {limit : Nat} {steps : List Step}
    (hadmits : (initial limit).Admits steps) :
    let record := fun o first => (initial limit).recordAfter o (some first) steps
    let t := (initial limit).after steps
    (∃ readc readi i ch : Ty,
        record ⟨0⟩ (.function .char) = some (.function readc) ∧
        record ⟨1⟩ (.function .int) = some (.function readi) ∧
        record ⟨3⟩ (.parameter .int) = some (.parameter i) ∧
        record ⟨5⟩ (.parameter .char) = some (.parameter ch) ∧
        t.returnType ⟨0⟩ = .ok readc ∧ t.returnType ⟨1⟩ = .ok readi ∧
        t.declaredType ⟨3⟩ = .ok i ∧ t.declaredType ⟨5⟩ = .ok ch ∧
        t.dumpGlobals? = some (predeclaredOutline readc readi i ch)) ∧
      (t.SignaturesKept ↔
        record ⟨0⟩ (.function .char) = some (.function .char) ∧
        record ⟨1⟩ (.function .int) = some (.function .int) ∧
        record ⟨3⟩ (.parameter .int) = some (.parameter .int) ∧
        record ⟨5⟩ (.parameter .char) = some (.parameter .char)) := by
  intro record t
  have hreachable : t.Reachable := (Reachable.initial limit).after hadmits
  obtain ⟨readc, readi, i, ch, hreadc, hreadi, hi, hch, htypes⟩ := predeclaredTypes_after hadmits
  have hdump := hreachable.isSealed.dumpGlobals?_eq htypes
  obtain ⟨hreadc', hreadi', hi', hch'⟩ := htypes.answers
  refine ⟨⟨readc, readi, i, ch, hreadc, hreadi, hi, hch, hreadc', hreadi', hi', hch', hdump⟩, ?_⟩
  have hfirst := (sealed_initial t.maxIdentLength).dumpGlobals?_eq (.initial _)
  change t.SignaturesKept ↔ (initial limit).recordAfter ⟨0⟩ _ steps = _ ∧
    (initial limit).recordAfter ⟨1⟩ _ steps = _ ∧ (initial limit).recordAfter ⟨3⟩ _ steps = _ ∧
    (initial limit).recordAfter ⟨5⟩ _ steps = _
  rw [hreadc, hreadi, hi, hch]
  unfold SignaturesKept
  rw [hreadc', hreadi', hi', hch', hdump, hfirst]
  constructor
  · rintro ⟨hc, hr, hp, hq, _⟩
    cases hc
    cases hr
    cases hp
    cases hq
    exact ⟨rfl, rfl, rfl, rfl⟩
  · rintro ⟨hc, hr, hp, hq⟩
    cases hc
    cases hr
    cases hp
    cases hq
    exact ⟨rfl, rfl, rfl, rfl, rfl⟩

/-- A session that records a type on a predeclared parameter and then its first type again, and that
fails to record one on the procedure that the parameter belongs to. -/
def rerecording : List Step :=
  [.command (.assign ⟨3⟩ (.parameter .char)), .command (.assign ⟨2⟩ (.function .char)),
   .command .loadReference, .command (.assign ⟨3⟩ (.parameter .int))]

theorem signaturesKept_rerecording : (initial 15).Admits rerecording ∧
    ((initial 15).after rerecording).SignaturesKept ∧
    ¬ ((initial 15).after (rerecording.take 3)).SignaturesKept := by
  have hadmits : (initial 15).Admits rerecording := by decide +kernel
  obtain ⟨_, hkept⟩ := signaturesKept_iff hadmits
  obtain ⟨_, hlost⟩ := signaturesKept_iff (hadmits.take 3)
  refine ⟨hadmits, hkept.mpr (by decide +kernel), fun h => ?_⟩
  exact absurd (hlost.mp h) (by decide +kernel)

/-- A type is recorded on a predeclared function. -/
def retyping : List Step :=
  [.command (.assign ⟨0⟩ (.function .int))]

/-- The signatures are not kept by every session: the record is accepted, the function has the new
type, and the dump of the predeclared routines shows it. -/
theorem not_signaturesKept_retyping : (initial 15).Admits retyping ∧
    ((initial 15).after retyping).returnType ⟨0⟩ = .ok .int ∧
    ((initial 15).after retyping).dumpGlobals? ≠ (initial 15).dumpGlobals? ∧
    ¬ ((initial 15).after retyping).SignaturesKept := by
  decide +kernel

end Table

end BlockScope
