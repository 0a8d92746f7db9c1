import BlockScope.Proofs.Declarations.Nesting
import BlockScope.Proofs.Dump.Walk
import BlockScope.Proofs.Session.Numbering

namespace BlockScope

/-- The nodes of the type that the heading shows. -/
def Heading.typeNodes (h : Heading) : Nat :=
  (h.ty?.map Ty.nodeCount).getD 0

/-- The report counts objects with the given headings, their bodies, their types and values, and the
types of the table itself. -/
structure Report.Tallies (r : Report) (headings : List Heading) : Prop where
  objects : r.objects = headings.length
  scopes : r.scopes = headings.countP (·.kind.hasBody)
  typeNodes : r.typeNodes =
    (headings.map Heading.typeNodes).sum + (sharedTypes.map Ty.nodeCount).sum
  constants : r.constants = headings.countP (·.value?.isSome)

/-- Two reports with the same orphans, of which the second counts more objects, differ by what these
objects add. -/
private theorem Report.Tallies.eq_of_append {r r' : Report} {headings more : List Heading}
    (h : r.Tallies headings) (h' : r'.Tallies (more ++ headings))
    (hobjects : r'.orphanObjects = r.orphanObjects) (hscopes : r'.orphanScopes = r.orphanScopes) :
    r' = { r with
      objects := r.objects + more.length
      scopes := r.scopes + more.countP (·.kind.hasBody)
      typeNodes := r.typeNodes + (more.map Heading.typeNodes).sum
      constants := r.constants + more.countP (·.value?.isSome) } := by
  obtain ⟨objects, scopes, typeNodes, constants⟩ := h
  obtain ⟨objects', scopes', typeNodes', constants'⟩ := h'
  rw [List.length_append] at objects'
  rw [List.countP_append] at scopes' constants'
  rw [List.map_append, List.sum_append] at typeNodes'
  cases r'
  simp only [Report.mk.injEq] at *
  omega

namespace Table

/-- The number of objects that have a body. -/
def bodies (t : Table) : Nat :=
  t.registry.countP (·.1.hasBody)

variable {t t' : Table} {r : Report}

/-- What is counted once for each object that shows it, and nowhere else, is counted by headings. -/
private theorem countP_withBody {P : Node → Bool} {Q : Heading → Bool}
    (h : ∀ o, (t.withBody o).countP P = if Q (t.object o).heading then 1 else 0)
    (list : List ObjectId) : (list.flatMap t.withBody).countP P =
      (list.map fun o => (t.object o).heading).countP Q := by
  induction list with
  | nil => rfl
  | cons o rest ih =>
    rw [List.flatMap_cons, List.countP_append, h, ih, List.map_cons, List.countP_cons, Nat.add_comm]

private theorem sum_typeNodes_withBody (list : List ObjectId) :
    ((list.flatMap t.withBody).map t.typeNodes).sum =
      ((list.map fun o => (t.object o).heading).map Heading.typeNodes).sum := by
  induction list with
  | nil => rfl
  | cons o rest ih =>
    have hfirst : ((t.withBody o).map t.typeNodes).sum = (t.object o).heading.typeNodes := by
      rw [Heading.typeNodes, Object.ty?_heading]
      cases hbody : (t.object o).body? <;> simp [withBody, owned, hbody, typeNodes]
    rw [List.flatMap_cons, List.map_append, List.sum_append, ih, hfirst]
    rfl

private theorem isSome_body? (o : Object) : o.body?.isSome = o.kind.hasBody := by
  unfold Object.body? Object.kind
  cases o.attributes <;> rfl

private theorem tallies_report {sweep : Sweep} {list : List ObjectId}
    (h : sweep.reached = list.flatMap t.withBody) :
    (t.report sweep).Tallies (list.map fun o => (t.object o).heading) where
  objects := by
    rw [report, h, countP_isObject, filterMap_flatMap_withBody, List.length_map]
  scopes := by
    rw [report, h]
    refine countP_withBody (fun o => ?_) list
    rw [Object.kind_heading, ← isSome_body?]
    cases hbody : (t.object o).body? <;> simp [withBody, owned, hbody, Node.isScope]
  typeNodes := by
    calc (t.report sweep).typeNodes
        = (sweep.reached.map t.typeNodes ++ sharedTypes.map Ty.nodeCount).sum := rfl
      _ = _ := by rw [h, List.sum_append, sum_typeNodes_withBody]
  constants := by
    rw [report, h]
    refine countP_withBody (fun o => ?_) list
    rw [Object.value?_heading]
    cases hbody : (t.object o).body? <;> by_cases hvalue : (t.object o).attributes.value?.isSome <;>
      simp [withBody, owned, hbody, isValued, hvalue]

private theorem bodies_allocate (b : Blueprint) (name : String) :
    (t.allocate b name).bodies = t.bodies + if b.kind.hasBody then 1 else 0 := by
  rw [bodies, registry_allocate, List.countP_append, List.countP_singleton]
  rfl

private theorem size_scopes_allocate (b : Blueprint) (name : String) :
    (t.allocate b name).scopes.size = t.scopes.size + if b.kind.hasBody then 1 else 0 := by
  unfold allocate newScopes
  by_cases hbody : b.kind.hasBody <;> simp [hbody]

/-- An orderly session makes no scope but the bodies of its objects. -/
theorem Orderly.size_scopes (h : t.Orderly t') {bodies scopes : Nat}
    (hbefore : t.scopes.size + bodies = scopes + t.bodies) :
    t'.scopes.size + bodies = scopes + t'.bodies := by
  cases h with
  | @program name hlength hfirst =>
    rw [size_scopes_allocate, bodies_allocate]
    omega
  | @introduce s b name made hcurrent hkind hfits hlength hrecords =>
    have hmade : made.scopes.size + bodies = scopes + made.bodies := by
      refine hrecords.preserves (P := fun made => made.scopes.size + bodies = scopes + made.bodies)
        (fun _ _ hsame => ?_) ?_
      · rw [Table.bodies, registry_record]
        exact hsame
      · rw [size_scopes_allocate, bodies_allocate]
        omega
    rw [size_scopes_enlist, Table.bodies, registry_enlist]
    exact hmade
  | assign ho hkind =>
    rw [Table.bodies, registry_record]
    exact hbefore
  | enter hs hopen houter => exact hbefore
  | exit hcurrent => exact hbefore

end Table

namespace Program

open Table

variable {p : Program} {t : Table} {o : ObjectId} {r r' : Report}

theorem size_objects_load (h : t.InBounds) (hresult : (p.load t).result = .ok o) :
    (p.load t).table.objects.size = t.objects.size + p.headings.length := by
  rw [← length_headings, p.headings_load h hresult, List.length_append, length_headings]

theorem size_scopes_load (h : t.InBounds) (hresult : (p.load t).result = .ok o) :
    (p.load t).table.scopes.size = t.scopes.size + p.headings.countP (·.kind.hasBody) := by
  have hscopes := (p.load_orderlyTo h).preserves
    (P := fun t' => t'.scopes.size + t.bodies = t.scopes.size + t'.bodies)
    (fun _ hstep => hstep.size_scopes) h rfl
  have hbodies : (p.load t).table.bodies = t.bodies + p.headings.countP (·.kind.hasBody) := by
    rw [bodies, registry_eq_map_headings, p.headings_load h hresult, List.map_append,
      List.countP_append, ← registry_eq_map_headings, List.countP_map]
    rfl
  omega

private theorem program_eq_none_of_load (hresult : (p.load t).result = .ok o) :
    t.program = none := by
  obtain ⟨e, hrefused⟩ | ⟨_, _, hfirst⟩ := t.create_cases .program p.name
  · rw [load_eq_refused hrefused] at hresult
    cases hresult
  · exact hfirst rfl

/-- What the release of a table reports after a program has been loaded into it: what it would have
reported before, and the objects of the program with their bodies, types and values. The orphans are
the same in number, for the table grows by as much as the walk. -/
theorem release_load (h : t.InBounds) (hresult : (p.load t).result = .ok o)
    (hr : t.release = .ok r) (hr' : (p.load t).table.release = .ok r') :
    r' = { r with
      objects := r.objects + p.headings.length
      scopes := r.scopes + p.headings.countP (·.kind.hasBody)
      typeNodes := r.typeNodes + (p.headings.map Heading.typeNodes).sum
      constants := r.constants + p.headings.countP (·.value?.isSome) } := by
  have hleads := p.load_leadsTo h
  obtain ⟨f, hroots, hnew, hprogram⟩ := load_newForest h hresult
  obtain ⟨sweep, own, predeclared, _, rfl, _, hown, _, hpredeclared, hreached⟩ := exists_forests hr
  obtain ⟨sweep', own', predeclared', _, rfl, _, hown', _, hpredeclared', hreached'⟩ :=
    exists_forests hr'
  rw [program_eq_none_of_load hresult] at hown
  cases hown
  rw [hprogram, Option.toList_some, ← hroots] at hown'
  obtain rfl := hnew.unfolds.unique hown'
  have hold (q : ObjectId) (hq : q ∈ predeclared.preorder) :
      (p.load t).table.object q = t.object q :=
    p.object_load h ((hpredeclared.grounded h h.globals).hasObject q hq)
  have hglobals : (p.load t).table.Unfolds t.globals predeclared :=
    hpredeclared.congr fun q hq => contents_congr (hold q hq) fun u hu =>
      p.scope_load h (h.body hu)
  rw [hleads.continues.globals] at hpredeclared'
  obtain rfl := hglobals.unique hpredeclared'
  have hheadings : (f.preorder ++ predeclared.preorder).map
      (fun o => ((p.load t).table.object o).heading) =
        p.headings ++ predeclared.preorder.map fun o => (t.object o).heading := by
    rw [List.map_append, ← Forest.preorder_map, hnew.headings, p.preorder_forest]
    exact congrArg _ (List.map_congr_left fun q hq => congrArg Object.heading (hold q hq))
  have hbefore : (t.report sweep).Tallies
      (predeclared.preorder.map fun o => (t.object o).heading) := tallies_report hreached
  have hafter := tallies_report hreached'
  rw [hheadings] at hafter
  have hobjects := objects_add_orphanObjects (counts_of_release h hr)
  have hscopes := scopes_add_orphanScopes (counts_of_release h hr)
  have hobjects' := objects_add_orphanObjects (counts_of_release (h.leadsTo hleads) hr')
  have hscopes' := scopes_add_orphanScopes (counts_of_release (h.leadsTo hleads) hr')
  rw [size_objects_load h hresult, hafter.objects, List.length_append] at hobjects'
  rw [size_scopes_load h hresult, hafter.scopes, List.countP_append] at hscopes'
  rw [hbefore.objects] at hobjects
  rw [hbefore.scopes] at hscopes
  exact hbefore.eq_of_append hafter (by omega) (by omega)

end Program

end BlockScope
