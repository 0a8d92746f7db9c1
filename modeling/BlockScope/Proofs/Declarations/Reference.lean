import BlockScope.Proofs.Declarations.Release

namespace BlockScope

/-- The dump of the reference program. -/
def referenceOutline : String :=
  String.join
    ["Program PRG\n",
     "    Const c1 = 10\n",
     "    Const c2 = 'a'\n",
     "    Type t1 = Arr(10,Int)\n",
     "    Var v1 : Int\n",
     "    Var v2 : Arr(10,Arr(10,Int))\n",
     "    Function f : Int\n",
     "        Param p1 : Int\n",
     "        Param VAR p2 : Char\n",
     "    Procedure p\n",
     "        Param v1 : Int\n",
     "        Const c1 = 'a'\n",
     "        Const c3 = 10\n",
     "        Type t1 = Int\n",
     "        Type t2 = Arr(10,Int)\n",
     "        Var v2 : Arr(10,Int)\n",
     "        Var v3 : Char\n"]

private theorem render_reference : Program.reference.forest.render 0 = referenceOutline := by
  decide +kernel

example : (lines referenceOutline).length = 17 := by
  rw [← render_reference, Forest.lines_render (by decide +kernel)]
  rfl

namespace Table

/-- The second table is the first with the reference program added to it. Everything that was there
is as it was, and the release of the second table reports what the release of the first one would,
and the program. -/
structure WithReference (t t' : Table) : Prop where
  current : t'.current = none
  objects : t'.objects.size = t.objects.size + 17
  scopes : t'.scopes.size = t.scopes.size + 3
  dump : t'.dumpProgram? = some referenceOutline
  object : ∀ o, t.HasObject o → t'.object o = t.object o
  scope : ∀ s, t.HasScope s → t'.scope s = t.scope s
  release : ∃ r, t.release = .ok r ∧ t'.release = .ok { r with
    objects := r.objects + 17
    scopes := r.scopes + 3
    typeNodes := r.typeNodes + 16
    constants := r.constants + 4 }

/-- What comes of loading the reference program into the table, for each thing that may stand in
the way. -/
structure LoadsReference (t : Table) (out : Outcome ObjectId) : Prop where
  accepted_iff : (∃ o, out.result = .ok o) ↔
    3 ≤ t.maxIdentLength ∧ t.program = none ∧ t.current = none
  accepted : ∀ o, out.result = .ok o → t.WithReference out.table
  tooLong : t.maxIdentLength < 3 →
    out.result = .error (.identTooLong "PRG" t.maxIdentLength) ∧ out.table = t
  second : 3 ≤ t.maxIdentLength → ∀ o, t.program = some o →
    out.result = .error (.programAlreadyDefined (t.name o)) ∧ out.table = t
  inside : 3 ≤ t.maxIdentLength → t.program = none → ∀ s, t.current = some s →
    out.result = .error .unbalancedBlock ∧ out.table = { t with
      objects := t.objects.push ⟨"PRG", .program t.nextScope, true⟩
      scopes := t.scopes.push ⟨[], t.nextObject, none⟩
      program := some t.nextObject }

variable {t : Table} {o : ObjectId}

theorem load_reference_of_lt (h : t.maxIdentLength < 3) :
    Program.reference.load t = .refused (.identTooLong "PRG" t.maxIdentLength) t :=
  Program.load_eq_refused (if_pos h)

theorem Reachable.withReference (h : t.Reachable)
    (hresult : (Program.reference.load t).result = .ok o) :
    t.WithReference (Program.reference.load t).table := by
  have hbounds := h.inBounds
  have hreachable : (Program.reference.load t).table.Reachable :=
    h.step (.command .loadReference) trivial
  have hfree := (Program.load_accepted_iff hbounds (by decide)).mp ⟨o, hresult⟩
  obtain ⟨r, hr⟩ := h.isForest.release hbounds
  obtain ⟨r', hr'⟩ := hreachable.isForest.release hreachable.inBounds
  refine ⟨?_, ?_, ?_, ?_, fun p hp => ?_, fun s hs => ?_, r, hr, ?_⟩
  · rw [Program.current_load hbounds (by decide), hfree.2.2]
  · exact Program.size_objects_load hbounds hresult
  · exact Program.size_scopes_load hbounds hresult
  · rw [Program.dumpProgram?_load hbounds hresult, render_reference]
  · exact Program.object_load _ hbounds hp
  · exact Program.scope_load _ hbounds hs
  · rw [hr', Program.release_load hbounds hresult hr hr']
    rfl

/-- **The reference program on any table.** The reference program can be loaded into a reachable
table exactly if names may have three letters, there is no program yet and no scope is current. It
is then added to what is there, and nothing else is changed. Otherwise the table stays as it is,
unless it is the current scope alone that stands in the way: then the program itself has been made,
with an empty body. -/
theorem Reachable.load_reference (h : t.Reachable) :
    t.LoadsReference (Program.reference.load t) := by
  have hbounds := h.inBounds
  refine ⟨Program.load_accepted_iff hbounds (by decide), fun o => h.withReference,
    fun hshort => ?_, fun hlength o hprogram => ?_, fun hlength hfirst s hcurrent => ?_⟩
  · rw [load_reference_of_lt hshort]
    exact ⟨rfl, rfl⟩
  · have hcreate :
        t.create .program "PRG" = .refused (.programAlreadyDefined (t.name o)) t := by
      have hshort : ¬ t.maxIdentLength < "PRG".length := Nat.not_lt_of_le hlength
      simp [create, hshort, hprogram, Blueprint.kind]
    rw [Program.load_eq_refused hcreate]
    exact ⟨rfl, rfl⟩
  · exact Program.load_inside hbounds hcurrent hlength hfirst

/-- A procedure has been made and its body entered, where one variable has been declared and
another has not. Nothing holds the procedure. Then the body has been left. -/
def furnished : List Step :=
  [.command (.create .procedure "p"), .command (.enter ⟨5⟩), .command (.create .var "v"),
   .command (.declare ⟨8⟩), .command (.create .var "w"), .command .exit]

theorem load_reference_furnished :
    ((initial 3).after furnished).WithReference
      (Program.reference.load ((initial 3).after furnished)).table ∧
    (Program.reference.load ((initial 3).after furnished)).table.release =
      .ok ⟨24, 8, 22, 4, 3, 1⟩ ∧
    (Program.reference.load ((initial 3).after (furnished.take 5))).result =
      .error .unbalancedBlock ∧
    (Program.reference.load (initial 2)).result = .error (.identTooLong "PRG" 2) := by
  have hadmits : (initial 3).Admits furnished := by decide
  have hfree := ((Reachable.initial 3).after hadmits).load_reference
  have hinside := ((Reachable.initial 3).after (hadmits.take 5)).load_reference
  have hshort := (Reachable.initial 2).load_reference
  obtain ⟨o, ho⟩ := hfree.accepted_iff.mpr (by decide)
  obtain ⟨r, hr, hr'⟩ := (hfree.accepted o ho).release
  have hbefore : ((initial 3).after furnished).release = .ok ⟨7, 5, 6, 0, 3, 1⟩ := by
    decide +kernel
  obtain rfl := Except.ok.inj (hbefore.symm.trans hr)
  exact ⟨hfree.accepted o ho, hr', (hinside.inside (by decide) (by decide) ⟨5⟩ (by decide)).1,
    (hshort.tooLong (by decide)).1⟩

end Table

end BlockScope
