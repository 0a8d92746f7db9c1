import BlockScope.Proofs.Declarations.Walk

namespace BlockScope

namespace Table

/-- The table with a new program, the body of which is entered. -/
def openProgram (t : Table) (name : String) : Table :=
  { t.allocate .program name with current := some t.nextScope }

/-- The creation of a program is accepted. -/
structure TakesProgram (t : Table) (name : String) : Prop where
  inBounds : t.InBounds
  length : name.length ≤ t.maxIdentLength
  first : t.program = none

variable {t t' : Table} {name : String} {s : ScopeId} {o : ObjectId}

theorem body?_allocate {b : Blueprint} (name : String) (hbody : b.kind.hasBody) :
    ((t.allocate b name).object t.nextObject).body? = some t.nextScope := by
  rw [object_allocate, if_pos rfl]
  exact (t.body?_newAttributes b).trans (if_pos hbody)

theorem scope_openProgram : (t.openProgram name).scope s = (t.allocate .program name).scope s :=
  scope_moveTo _

theorem object_openProgram : (t.openProgram name).object o = (t.allocate .program name).object o :=
  object_moveTo _

/-- The body of a program is outermost. -/
theorem scope_allocate_program :
    (t.allocate .program name).scope t.nextScope = ⟨[], t.nextObject, none⟩ := by
  rw [scope_allocate, if_pos ⟨rfl, rfl⟩]
  rfl

namespace TakesProgram

theorem create (htakes : t.TakesProgram name) :
    t.create .program name = .accepted t.nextObject (t.allocate .program name) [] :=
  create_accepted htakes.length fun _ => htakes.first

theorem orderly (htakes : t.TakesProgram name) : t.Orderly (t.allocate .program name) :=
  .program htakes.length htakes.first

theorem isOpen (htakes : t.TakesProgram name) :
    ((t.allocate .program name).scope t.nextScope).owner ∉ t.globals := by
  rw [scope_allocate_program]
  exact fun hglobal => not_hasObject_nextObject (htakes.inBounds.globals _ hglobal)

/-- Where no scope is current, a new program can be entered right away. -/
theorem enterBody (htakes : t.TakesProgram name) (hcurrent : t.current = none) :
    ∃ log, (t.allocate .program name).enterBody t.nextObject =
      .accepted () (t.openProgram name) log := by
  unfold Table.enterBody bodyScope
  rw [body?_allocate name rfl]
  refine ⟨_, enter_accepted htakes.isOpen ?_⟩
  rw [scope_allocate_program, current_allocate, hcurrent]

/-- Where a scope is current, a new program cannot be entered. -/
private theorem enterBody_refused (htakes : t.TakesProgram name) (hcurrent : t.current = some s) :
    (t.allocate .program name).enterBody t.nextObject =
      .refused .unbalancedBlock (t.allocate .program name) := by
  unfold Table.enterBody bodyScope
  rw [body?_allocate name rfl]
  apply enter_eq_unbalanced htakes.isOpen
  rw [scope_allocate_program, current_allocate, hcurrent]
  nofun

theorem orderlyTo_open (htakes : t.TakesProgram name) (hcurrent : t.current = none) :
    t.OrderlyTo (t.openProgram name) := by
  refine (OrderlyTo.single htakes.orderly).trans (.single (.enter ?_ htakes.isOpen ?_))
  · exact hasScope_allocate.mpr (.inr ⟨rfl, rfl⟩)
  · rw [scope_allocate_program, current_allocate, hcurrent]

end TakesProgram

/-- What becomes of a table when a program is loaded. The program is refused at once; or it is made
and goes no further, for a scope is current; or its declarations are loaded into its body, which is
left when they have come to their end. -/
inductive LoadsProgram (t : Table) (p : Program) : Except SemanticError ObjectId → Table → Prop
  | refused {e : SemanticError} (hrefused : t.create .program p.name = .refused e t) :
      LoadsProgram t p (.error e) t
  | unopened {s : ScopeId} (htakes : t.TakesProgram p.name) (hcurrent : t.current = some s) :
      LoadsProgram t p (.error .unbalancedBlock) (t.allocate .program p.name)
  | inside {t' : Table} {e : SemanticError} (htakes : t.TakesProgram p.name)
      (hcurrent : t.current = none)
      (hblock : (t.openProgram p.name).Loads t.nextScope p.block.forest (.error e) t') :
      LoadsProgram t p (.error e) t'
  | done {t' : Table} (htakes : t.TakesProgram p.name) (hcurrent : t.current = none)
      (hblock : (t.openProgram p.name).Loads t.nextScope p.block.forest (.ok ()) t') :
      LoadsProgram t p (.ok t.nextObject) { t' with current := none }

namespace LoadsProgram

variable {p : Program} {result : Except SemanticError ObjectId}

theorem outer_back (hfilled : (t.openProgram name).LeadsTo t') :
    (t'.scope t.nextScope).outer = none := by
  have hbody : (t.openProgram name).HasScope t.nextScope :=
    hasScope_moveTo.mpr (hasScope_allocate.mpr (.inr ⟨rfl, rfl⟩))
  rw [hfilled.continues.outer hbody, scope_openProgram, scope_allocate_program]

theorem orderlyTo (h : t.LoadsProgram p result t') : t.OrderlyTo t' := by
  cases h with
  | refused => exact .refl t
  | unopened htakes => exact .single htakes.orderly
  | inside htakes hcurrent hblock => exact (htakes.orderlyTo_open hcurrent).trans hblock.orderlyTo
  | done htakes hcurrent hblock =>
    have hleave := Orderly.exit hblock.current_eq
    rw [outer_back hblock.leadsTo] at hleave
    exact ((htakes.orderlyTo_open hcurrent).trans hblock.orderlyTo).trans (.single hleave)

theorem scope_eq (h : t.LoadsProgram p result t') (hs : t.HasScope s) : t'.scope s = t.scope s := by
  have hopened (hopen : t.OrderlyTo (t.openProgram p.name)) : (t.openProgram p.name).HasScope s :=
    hopen.leadsTo.within.scope hs
  have hold : (t.openProgram p.name).scope s = t.scope s :=
    scope_openProgram.trans (hs.scope_allocate .program p.name)
  cases h with
  | refused => rfl
  | unopened => exact hs.scope_allocate .program p.name
  | inside htakes hcurrent hblock =>
    rw [hblock.scope_eq (hopened (htakes.orderlyTo_open hcurrent)) hs.ne_nextScope, hold]
  | done htakes hcurrent hblock =>
    rw [scope_moveTo, hblock.scope_eq (hopened (htakes.orderlyTo_open hcurrent)) hs.ne_nextScope,
      hold]

theorem object_eq (h : t.LoadsProgram p result t') (ho : t.HasObject o) :
    t'.object o = t.object o := by
  have hopened (hopen : t.OrderlyTo (t.openProgram p.name)) : (t.openProgram p.name).HasObject o :=
    hopen.leadsTo.within.object ho
  have hold : (t.openProgram p.name).object o = t.object o :=
    object_openProgram.trans (ho.object_allocate .program p.name)
  have howner : o ≠ ((t.openProgram p.name).scope t.nextScope).owner := by
    rw [scope_openProgram, scope_allocate_program]
    exact ho.ne_nextObject
  cases h with
  | refused => rfl
  | unopened => exact ho.object_allocate .program p.name
  | inside htakes hcurrent hblock =>
    rw [hblock.object_eq (hopened (htakes.orderlyTo_open hcurrent)) howner, hold]
  | done htakes hcurrent hblock =>
    rw [object_moveTo, hblock.object_eq (hopened (htakes.orderlyTo_open hcurrent)) howner,
      hold]

end LoadsProgram

end Table

namespace Program

open Table

variable {p : Program} {t : Table} {s : ScopeId} {o : ObjectId}

/-- A program that is refused when it is created goes no further. -/
theorem load_eq_refused {e : SemanticError} (h : t.create .program p.name = .refused e t) :
    p.load t = .refused e t := by
  unfold load
  rw [h]
  rfl

theorem load_loads (p : Program) (h : t.InBounds) :
    t.LoadsProgram p (p.load t).result (p.load t).table := by
  obtain ⟨e, hrefused⟩ | ⟨_, hlength, hfirst⟩ := t.create_cases .program p.name
  · rw [load_eq_refused hrefused]
    exact .refused hrefused
  · have htakes : t.TakesProgram p.name := ⟨h, hlength, hfirst rfl⟩
    unfold load
    rw [htakes.create, Outcome.result_andThen_accepted, Outcome.table_andThen_accepted]
    cases hcurrent : t.current with
    | some s =>
      rw [htakes.enterBody_refused hcurrent]
      exact .unopened htakes hcurrent
    | none =>
      obtain ⟨log, henter⟩ := htakes.enterBody hcurrent
      rw [henter, Outcome.result_andThen_accepted, Outcome.table_andThen_accepted]
      have hblock := p.block.load_loads (h.leadsTo (htakes.orderlyTo_open hcurrent).leadsTo) rfl
      cases hend : (p.block.load (t.openProgram p.name)).result with
      | error e =>
        rw [hend] at hblock
        rw [Outcome.result_andThen_of_error hend, Outcome.table_andThen_of_error hend]
        exact .inside htakes hcurrent hblock
      | ok _ =>
        rw [hend] at hblock
        rw [Outcome.result_andThen_of_ok hend, Outcome.table_andThen_of_ok hend,
          exit_accepted hblock.current_eq, Outcome.result_andThen_accepted,
          Outcome.table_andThen_accepted, LoadsProgram.outer_back hblock.leadsTo]
        exact .done htakes hcurrent hblock

/-- Loading a program, whether or not it gets to its end, is orderly. -/
theorem load_orderlyTo (p : Program) (h : t.InBounds) : t.OrderlyTo (p.load t).table :=
  (p.load_loads h).orderlyTo

theorem load_leadsTo (p : Program) (h : t.InBounds) : t.LeadsTo (p.load t).table :=
  (p.load_orderlyTo h).leadsTo

/-- Loading a program, whether or not it gets to its end, leaves all older scopes as they are, and
all older objects. -/
theorem scope_load (p : Program) (h : t.InBounds) (hs : t.HasScope s) :
    (p.load t).table.scope s = t.scope s :=
  (p.load_loads h).scope_eq hs

theorem object_load (p : Program) (h : t.InBounds) (ho : t.HasObject o) :
    (p.load t).table.object o = t.object o :=
  (p.load_loads h).object_eq ho

/-- A program that is loaded to its end has made its objects in the order in which they are written,
with their types and values recorded. -/
theorem headings_load (p : Program) (h : t.InBounds) (hresult : (p.load t).result = .ok o) :
    (p.load t).table.headings = t.headings ++ p.headings := by
  have hloads := p.load_loads h
  generalize (p.load t).result = result, (p.load t).table = t' at hloads hresult
  cases hloads with
  | refused | unopened | inside => cases hresult
  | done htakes hcurrent hblock =>
    have hopened : (t.openProgram p.name).headings = t.headings ++ [.program p.name] :=
      (headings_moveTo _).trans (headings_allocate .program p.name)
    rw [headings_moveTo, hblock.headings_eq, hopened, p.block.preorder_forest, headings,
      List.append_assoc]
    rfl

/-- Where a scope is current, a program is created and goes no further: its body is outermost, and
cannot be entered from within a scope. -/
theorem load_inside (h : t.InBounds) (hcurrent : t.current = some s)
    (hlength : p.name.length ≤ t.maxIdentLength) (hfirst : t.program = none) :
    (p.load t).result = .error .unbalancedBlock ∧
      (p.load t).table = t.allocate .program p.name := by
  have htakes : t.TakesProgram p.name := ⟨h, hlength, hfirst⟩
  unfold load
  rw [htakes.create, Outcome.result_andThen_accepted, Outcome.table_andThen_accepted,
    htakes.enterBody_refused hcurrent]
  exact ⟨rfl, rfl⟩

/-- The program has the longest name of all that is declared in it. -/
def NamedLongest (p : Program) : Prop :=
  ∀ h ∈ p.block.headings, h.name.length ≤ p.name.length

instance (p : Program) : Decidable p.NamedLongest :=
  inferInstanceAs (Decidable (∀ h ∈ p.block.headings, h.name.length ≤ p.name.length))

/-- Where the name of a program is short enough, so are all names that are not longer. -/
theorem NamedLongest.eq_ok (h : p.NamedLongest) (htakes : t.TakesProgram p.name)
    (hcurrent : t.current = none) {result : Except SemanticError Unit} {t' : Table}
    (hblock : (t.openProgram p.name).Loads t.nextScope p.block.forest result t') :
    result = .ok () := by
  refine hblock.eq_ok fun hd hmem => ?_
  rw [p.block.preorder_forest] at hmem
  rw [(htakes.orderlyTo_open hcurrent).leadsTo.continues.limit]
  exact Nat.le_trans (h hd hmem) htakes.length

/-- A program whose name is its longest is refused at once, or its body cannot be entered where it
has been made, or it is loaded to its end and left again. -/
theorem load_cases (h : t.InBounds) (hlongest : p.NamedLongest) :
    (∃ e, t.create .program p.name = .refused e t ∧ p.load t = .refused e t) ∨
      ((p.load t).result = .error .unbalancedBlock ∧
        (p.load t).table = t.allocate .program p.name) ∨
      (t.current = none ∧ (∃ o, (p.load t).result = .ok o) ∧ (p.load t).table.current = none) := by
  have hloads := p.load_loads h
  generalize hresult : (p.load t).result = result, htable : (p.load t).table = t' at hloads
  cases hloads with
  | refused hrefused => exact .inl ⟨_, hrefused, load_eq_refused hrefused⟩
  | unopened htakes hcurrent => exact .inr (.inl ⟨rfl, rfl⟩)
  | inside htakes hcurrent hblock => cases hlongest.eq_ok htakes hcurrent hblock
  | done htakes hcurrent hblock => exact .inr (.inr ⟨hcurrent, ⟨_, rfl⟩, rfl⟩)

/-- A program whose name is its longest is loaded to its end exactly if its name is short enough,
there is no program yet and no scope is current. -/
theorem load_accepted_iff (h : t.InBounds) (hlongest : p.NamedLongest) :
    (∃ o, (p.load t).result = .ok o) ↔
      p.name.length ≤ t.maxIdentLength ∧ t.program = none ∧ t.current = none := by
  have hloads := p.load_loads h
  generalize (p.load t).result = result, (p.load t).table = t' at hloads
  cases hloads with
  | refused hrefused =>
    refine ⟨nofun, fun ⟨hlength, hfirst, _⟩ => ?_⟩
    rw [create_accepted hlength fun _ => hfirst] at hrefused
    cases hrefused
  | unopened htakes hcurrent =>
    refine ⟨nofun, fun ⟨_, _, hnone⟩ => ?_⟩
    rw [hcurrent] at hnone
    cases hnone
  | inside htakes hcurrent hblock => cases hlongest.eq_ok htakes hcurrent hblock
  | done htakes hcurrent hblock =>
    exact ⟨fun _ => ⟨htakes.length, htakes.first, hcurrent⟩, fun _ => ⟨_, rfl⟩⟩

/-- Loading a program whose name is its longest never changes which scope is current, whether it
is accepted or refused. -/
theorem current_load (h : t.InBounds) (hlongest : p.NamedLongest) :
    (p.load t).table.current = t.current := by
  have hloads := p.load_loads h
  generalize (p.load t).result = result, (p.load t).table = t' at hloads
  cases hloads with
  | refused | unopened => rfl
  | inside htakes hcurrent hblock => cases hlongest.eq_ok htakes hcurrent hblock
  | done _ hcurrent _ => exact hcurrent.symm

end Program

end BlockScope
