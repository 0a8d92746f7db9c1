import BlockScope.Proofs.Dump.Nesting
import BlockScope.Proofs.Session.Growth

namespace BlockScope

namespace Table

/-- In `t'`, the forest `f` shows its roots and all that is nested in them. Neither its objects nor
their bodies were in `t`, and `headings` are their headings. -/
structure NewForest (t t' : Table) (f : Forest ObjectId) (headings : Forest Heading) : Prop where
  unfolds : t'.Unfolds f.roots f
  headings : f.map (fun o => (t'.object o).heading) = headings
  hasObject : ∀ o ∈ f.preorder, t'.HasObject o
  isNew : ∀ o ∈ f.preorder, ¬ t.HasObject o
  newBody : ∀ o ∈ f.preorder, ∀ u, (t'.object o).body? = some u → ¬ t.HasScope u

/-- In `t'`, the scope `s` lists the roots of a new forest after the objects that it listed in
`t`. -/
structure Nests (t t' : Table) (s : ScopeId) (f : Forest ObjectId) (headings : Forest Heading) :
    Prop extends NewForest t t' f headings where
  listed : (t'.scope s).objects = (t.scope s).objects ++ f.roots

variable {t t' t'' : Table} {o : ObjectId} {s u : ScopeId} {f below after : Forest ObjectId}
  {headings : Forest Heading} {heading : Heading}

theorem contents_congr (hobject : t'.object o = t.object o)
    (hscope : ∀ u, (t.object o).body? = some u → t'.scope u = t.scope u) :
    t'.contents o = t.contents o := by
  unfold contents
  rw [hobject]
  cases hfound : (t.object o).body? with
  | none => rfl
  | some u => exact congrArg Scope.objects (hscope u hfound)

theorem Unfolds.congr {list : List ObjectId} (h : t.Unfolds list f)
    (hcontents : ∀ o ∈ f.preorder, t'.contents o = t.contents o) : t'.Unfolds list f := by
  induction h with
  | nil => exact .nil
  | cons _ _ ihBelow ihAfter =>
    obtain ⟨hroot, hlater⟩ := List.forall_mem_cons.mp hcontents
    obtain ⟨hbelow, hafter⟩ := List.forall_mem_append.mp hlater
    exact .cons (hroot ▸ ihBelow hbelow) (ihAfter hafter)

namespace NewForest

theorem nil : t.NewForest t' .nil .nil :=
  ⟨.nil, rfl, nofun, nofun, nofun⟩

theorem cons {headings' : Forest Heading} (ho : t'.HasObject o) (hnew : ¬ t.HasObject o)
    (hbody : ∀ u, (t'.object o).body? = some u → ¬ t.HasScope u)
    (hheading : (t'.object o).heading = heading) (hcontents : t'.contents o = below.roots)
    (hbelow : t.NewForest t' below headings) (hafter : t.NewForest t' after headings') :
    t.NewForest t' (.cons o below after) (.cons heading headings headings') where
  unfolds := .cons (hcontents ▸ hbelow.unfolds) hafter.unfolds
  headings := by rw [Forest.map, hheading, hbelow.headings, hafter.headings]
  hasObject := List.forall_mem_cons.mpr
    ⟨ho, List.forall_mem_append.mpr ⟨hbelow.hasObject, hafter.hasObject⟩⟩
  isNew := List.forall_mem_cons.mpr
    ⟨hnew, List.forall_mem_append.mpr ⟨hbelow.isNew, hafter.isNew⟩⟩
  newBody := List.forall_mem_cons.mpr
    ⟨hbody, List.forall_mem_append.mpr ⟨hbelow.newBody, hafter.newBody⟩⟩

/-- What is new is new since every earlier table. -/
theorem since (h : t'.NewForest t'' f headings) (hwithin : t.Within t') :
    t.NewForest t'' f headings :=
  ⟨h.unfolds, h.headings, h.hasObject, fun o ho hold => h.isNew o ho (hwithin.object hold),
    fun o ho u hu hold => h.newBody o ho u hu (hwithin.scope hold)⟩

/-- What is nested in new objects stays there while these are left alone, with their bodies. -/
theorem keep (h : t.NewForest t' f headings) (hwithin : t'.Within t'')
    (hobject : ∀ o ∈ f.preorder, t''.object o = t'.object o)
    (hscope : ∀ o ∈ f.preorder, ∀ u, (t'.object o).body? = some u → t''.scope u = t'.scope u) :
    t.NewForest t'' f headings where
  unfolds := h.unfolds.congr fun o ho => contents_congr (hobject o ho) (hscope o ho)
  headings := by
    rw [← h.headings]
    exact Forest.map_congr fun o ho => congrArg Object.heading (hobject o ho)
  hasObject o ho := hwithin.object (h.hasObject o ho)
  isNew := h.isNew
  newBody o ho u hu := by
    rw [hobject o ho] at hu
    exact h.newBody o ho u hu

end NewForest

namespace Loads

variable {hd : Heading} {later : Forest Heading}

/-- What has been nested in the body of a routine is left alone by what is loaded after it. -/
private theorem nests_back {filled : Table} {result : Except SemanticError Unit}
    (htakes : t.Takes s hd)
    (hbody : hd.kind.hasBody)
    (hbelow : (t.insertOpen s hd).Loads t.nextScope headings (.ok ()) filled)
    (hafter : { filled with current := some s }.Loads s later result t')
    (hnests : (t.insertOpen s hd).Nests filled t.nextScope below headings) :
    t.Nests t' t.nextScope below headings := by
  have hopen := htakes.leadsTo_open hbody
  have hfilled := hopen.trans hbelow.leadsTo
  have hs : (t.insertOpen s hd).HasScope s := hopen.within.scope htakes.hasScope
  have howner : t.HasObject (filled.scope s).owner := by
    rw [hfilled.continues.owner htakes.hasScope]
    exact (htakes.inBounds.scope s htakes.hasScope).owner
  have hbounds := htakes.inBounds.leadsTo hfilled
  have hwithin : filled.Within t' := ⟨hafter.leadsTo.within.object, hafter.leadsTo.within.scope⟩
  have hbody' : filled.HasScope t.nextScope :=
    hbelow.leadsTo.within.scope (htakes.hasScope_open hbody)
  have hkept : t.NewForest t' below headings := by
    refine (hnests.keep hwithin (fun o ho => ?_) fun o ho u hu => ?_).since hopen.within
    · refine hafter.object_eq (hnests.hasObject o ho) ?_
      rintro rfl
      exact hnests.isNew _ ho (hopen.within.object howner)
    · refine hafter.scope_eq (hbounds.body hu) ?_
      rintro rfl
      exact hnests.newBody o ho _ hu hs
  refine ⟨hkept, ?_⟩
  rw [hafter.scope_eq hbody' htakes.hasScope.ne_nextScope.symm, scope_moveTo, hnests.listed,
    scope_insertOpen, htakes.scope_body hbody, scope_of_not_hasScope not_hasScope_nextScope]
  rfl

/-- Declarations that have been loaded to their end are nested as they are written, in the scope
that they were loaded into. -/
theorem nests (h : t.Loads s headings (.ok ()) t') : ∃ f, t.Nests t' s f headings := by
  generalize hresult : Except.ok () = result at h
  induction h with
  | done => exact ⟨.nil, .nil, (List.append_nil _).symm⟩
  | refused | inside => cases hresult
  | @plain t t' s hd later result htakes hplain hafter ih =>
    subst hresult
    obtain ⟨after, hnests⟩ := ih rfl
    have ho := hafter.leadsTo.within.object (hasObject_insert.mpr (.inr rfl))
    have hbody : (t'.object t.nextObject).body? = none := by
      rw [(hafter.leadsTo.growsTo.grown (hasObject_insert.mpr (.inr rfl))).body?, body?_insert,
        hplain]
      rfl
    refine ⟨.cons t.nextObject .nil after, .cons ho not_hasObject_nextObject ?_
      (heading_nextObject ho (plain htakes hplain hafter).headings_eq) ?_ .nil
      (hnests.since htakes.leadsTo.within), ?_⟩
    · simp [hbody]
    · simp [contents, hbody, Forest.roots]
    · rw [hnests.listed, objects_insert htakes.hasScope, List.append_assoc]
      rfl
  | @routine t filled t' s hd headings later result htakes hbody hbelow hafter ihBelow ihAfter =>
    subst hresult
    obtain ⟨below, hinside⟩ := ihBelow rfl
    obtain ⟨after, hnests⟩ := ihAfter rfl
    have hkept := nests_back htakes hbody hbelow hafter hinside
    have hleads := (leadsTo_back htakes hbody hbelow).trans hafter.leadsTo
    have hroot : (t.insertOpen s hd).HasObject t.nextObject := hasObject_insert.mpr (.inr rfl)
    have ho := hleads.within.object hroot
    have hbody' : (t'.object t.nextObject).body? = some t.nextScope := by
      rw [(hleads.growsTo.grown hroot).body?, object_insertOpen, htakes.body? hbody]
    refine ⟨.cons t.nextObject below after, .cons ho not_hasObject_nextObject ?_
      (heading_nextObject ho (routine htakes hbody hbelow hafter).headings_eq) ?_ hkept.toNewForest
      (hnests.since (leadsTo_filled htakes hbody hbelow).within), ?_⟩
    · rintro u hu
      rw [hbody'] at hu
      rw [← Option.some.inj hu]
      exact not_hasScope_nextScope
    · rw [contents, hbody']
      change (t'.scope t.nextScope).objects = _
      rw [hkept.listed, scope_of_not_hasScope not_hasScope_nextScope]
      rfl
    · have hs : (t.insertOpen s hd).HasScope s :=
        (htakes.leadsTo_open hbody).within.scope htakes.hasScope
      rw [hnests.listed, scope_moveTo, hbelow.scope_eq hs htakes.hasScope.ne_nextScope,
        scope_insertOpen, objects_insert htakes.hasScope, List.append_assoc]
      rfl

end Loads

end Table

namespace Program

open Table

variable {p : Program} {t : Table} {o : ObjectId}

/-- A program that has been loaded to its end is nested as it is written. -/
theorem load_newForest (h : t.InBounds) (hresult : (p.load t).result = .ok o) :
    ∃ f, f.roots = [o] ∧ t.NewForest (p.load t).table f p.forest ∧
      (p.load t).table.program = some o := by
  have hloads := p.load_loads h
  have hheadings := headings_load p h hresult
  generalize (p.load t).result = result, (p.load t).table = t' at hloads hresult hheadings
  cases hloads with
  | refused | unopened | inside => cases hresult
  | @done filled htakes hcurrent hblock =>
    obtain rfl := Except.ok.inj hresult
    obtain ⟨below, hnests⟩ := hblock.nests
    have hopen := (htakes.orderlyTo_open hcurrent).leadsTo
    have hroot : (t.openProgram p.name).HasObject t.nextObject := hasObject_allocate.mpr (.inr rfl)
    have hgrows := hblock.leadsTo.growsTo
    have ho : filled.HasObject t.nextObject := hgrows.object hroot
    have hbody : (filled.object t.nextObject).body? = some t.nextScope := by
      rw [(hgrows.grown hroot).body?, object_openProgram, body?_allocate p.name rfl]
    have hbelow : (t.openProgram p.name).NewForest { filled with current := none } below
        p.block.forest := hnests.keep ⟨id, id⟩ (fun _ _ => rfl) fun _ _ _ _ => rfl
    refine ⟨.cons t.nextObject below .nil, rfl, .cons ho not_hasObject_nextObject ?_
      (heading_nextObject ho hheadings) ?_ (hbelow.since hopen.within) .nil, hgrows.sameProgram rfl⟩
    · intro u hu
      rw [object_moveTo, hbody] at hu
      rw [← Option.some.inj hu]
      exact not_hasScope_nextScope
    · have hcontents : filled.contents t.nextObject = (filled.scope t.nextScope).objects := by
        rw [contents, hbody]
      change filled.contents t.nextObject = _
      rw [hcontents, hnests.listed, scope_openProgram, scope_allocate_program]
      rfl

/-- The dump of a program that has been loaded to its end shows its declarations as they are
written, whatever the table held before. -/
theorem dumpProgram?_load (h : t.InBounds) (hresult : (p.load t).result = .ok o) :
    (p.load t).table.dumpProgram? = some (p.forest.render 0) := by
  obtain ⟨f, hroots, hnew, hprogram⟩ := load_newForest h hresult
  have hbounds := h.leadsTo (p.load_leadsTo h)
  have hunfolds := hnew.unfolds
  rw [hroots] at hunfolds
  have hforest := hunfolds.forest?_eq hbounds fun q hq => by
    rw [List.mem_singleton.mp hq]
    exact hbounds.program o hprogram
  rw [dumpProgram?, hprogram, dumpList?, Option.toList_some, hforest, Option.map_some,
    hnew.headings]

end Program

end BlockScope
