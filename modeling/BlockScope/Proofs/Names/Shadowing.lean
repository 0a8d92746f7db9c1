import BlockScope.Proofs.Names.Lookup

namespace BlockScope.Table

variable {t t' : Table} {s c : ScopeId} {o : ObjectId}

/-- The scopes around a scope depend on nothing but the links outward. -/
private theorem outward_congr (houter : ∀ s, (t'.scope s).outer = (t.scope s).outer) (length : Nat)
    (start : Option ScopeId) : t'.outward length start = t.outward length start := by
  induction length generalizing start with
  | zero => rfl
  | succ length ih =>
    cases start with
    | none => rfl
    | some s => rw [outward, outward, houter, ih]

/-- A declaration leaves the scopes linked as they are. -/
private theorem chain_enlist (s : ScopeId) (o : ObjectId) : (t.enlist s o).chain = t.chain := by
  unfold chain
  rw [size_scopes_enlist, current_enlist]
  exact outward_congr (outer_enlist s · o) _ _

private theorem find?_enlist (s : ScopeId) (o : ObjectId) (list : List ObjectId) (name : String) :
    (t.enlist s o).find? list name = t.find? list name := by
  unfold find?
  simp only [name_enlist]

/-- The scope that takes an object finds it by its name unless it had that name already. -/
private theorem findIn?_enlist_self (hs : t.HasScope s) (o : ObjectId) (name : String) :
    (t.enlist s o).findIn? s name =
      (t.findIn? s name).or (if name = t.name o then some o else none) := by
  unfold findIn?
  rw [find?_enlist, scope_enlist, if_pos ⟨rfl, hs⟩]
  have hlast : t.find? [o] name = if name = t.name o then some o else none := by
    by_cases hname : name = t.name o
    · simp [find?, hname]
    · simp [find?, hname, Ne.symm hname]
  rw [← hlast]
  exact List.find?_append

private theorem findIn?_enlist_of_ne (hne : s ≠ c) (o : ObjectId) (name : String) :
    (t.enlist c o).findIn? s name = t.findIn? s name := by
  unfold findIn?
  rw [find?_enlist, scope_enlist, if_neg fun hsame => hne hsame.1]

private theorem params_enlist {p : ObjectId} (hp : p ≠ (t.scope s).owner) (o : ObjectId) :
    (t.enlist s o).params p = t.params p := by
  unfold params mismatch
  rw [params?_enlist, if_neg fun hjoins => hp hjoins.2.1, name_enlist, kind_enlist]

/-- The current scope is asked first. What it does not know it does not hide. -/
private theorem lookup?_of_chain_eq {outer : List ScopeId} (hchain : t.chain = c :: outer)
    (name : String) : t.lookup? name = (t.findIn? c name).or
      ((outer.findSome? fun s => t.findIn? s name).or (t.find? t.globals name)) := by
  unfold lookup?
  rw [hchain, List.findSome?_cons]
  cases t.findIn? c name with
  | none => rfl
  | some p => rfl

/-- A declaration changes what its own name means, and only if the scope did not have it. -/
theorem Reachable.lookup?_enlist (h : t.Reachable) (hcurrent : t.current = some c) (o : ObjectId)
    (name : String) : (t.enlist c o).lookup? name =
      if name = t.name o ∧ t.findIn? c name = none then some o else t.lookup? name := by
  obtain ⟨outer, hchain, hfar⟩ := h.exists_chain_eq hcurrent
  have hscope := h.inBounds.current c hcurrent
  have houter : (outer.findSome? fun s => (t.enlist c o).findIn? s name) =
      outer.findSome? fun s => t.findIn? s name := by
    have hsame : ∀ s ∈ outer, (t.enlist c o).findIn? s name = t.findIn? s name := fun s hs =>
      findIn?_enlist_of_ne (ne_of_mem_of_not_mem hs hfar) o name
    rw [← List.head?_filterMap, ← List.head?_filterMap, List.filterMap_congr hsame]
  rw [lookup?_of_chain_eq ((chain_enlist c o).trans hchain), lookup?_of_chain_eq hchain, houter,
    globals_enlist, find?_enlist, findIn?_enlist_self hscope]
  cases hfound : t.findIn? c name with
  | some p => simp
  | none =>
    by_cases hname : name = t.name o
    · simp [hname]
    · simp [hname]

/-- In the second table names mean what they meant in the first, but for that of `o`, which the
scope `c` has taken. -/
structure NamesAfter (t : Table) (c : ScopeId) (o : ObjectId) (t' : Table) : Prop where
  lookup?_eq : ∀ name, t'.lookup? name =
    if name = t.name o ∧ t.findIn? c name = none then some o else t.lookup? name
  ofNew : t.findIn? c (t.name o) = none → t'.lookup? (t.name o) = some o
  ofTaken : t.findIn? c (t.name o) ≠ none → ∀ name, t'.lookup? name = t.lookup? name
  ofOther : ∀ name, name ≠ t.name o → t'.lookup? name = t.lookup? name
  objects : ∀ s, s ≠ c → (t'.scope s).objects = (t.scope s).objects
  params : ∀ p, p ≠ (t.scope c).owner → t'.params p = t.params p

/-- **What a declaration does to the meaning of names.** After an accepted declaration in the
current scope, the name of the declared object means this object, whatever it meant further out or
among the predeclared routines, unless the scope had an object of that name before. In that case,
and for every other name, all is as it was. Other scopes list what they listed, and of all routines
only the owner of the scope may have got a parameter. -/
theorem Reachable.lookup?_declare (h : t.Reachable) (hcurrent : t.current = some c)
    (haccepted : (t.declare o).result = .ok ()) : t.NamesAfter c o (t.declare o).table := by
  obtain ⟨e, hrefused⟩ | ⟨s, hdeclare, hs, _⟩ := t.declare_cases o
  · rw [hrefused] at haccepted
    cases haccepted
  · obtain rfl := Option.some.inj (hcurrent.symm.trans hs)
    have hlookup := h.lookup?_enlist hcurrent o
    rw [hdeclare]
    refine ⟨hlookup, fun hnew => ?_, fun htaken name => ?_, fun name hother => ?_,
      fun s hne => ?_, fun p hp => params_enlist hp o⟩
    · exact (hlookup _).trans (if_pos ⟨rfl, hnew⟩)
    · refine (hlookup name).trans (if_neg ?_)
      rintro ⟨rfl, hnew⟩
      exact htaken hnew
    · exact (hlookup name).trans (if_neg fun hsame => hother hsame.1)
    · exact congrArg Scope.objects ((scope_enlist c s o).trans (if_neg fun hsame => hne hsame.1))

/-- In a procedure of the reference program a scope made by hand is entered, and a variable is made
there with the name of a parameter of the procedure. -/
def namesake : List Step :=
  handmade ++ [.command (.create .var "v1")]

/-- With the declaration the name comes to mean the variable, and no longer the parameter. The names
around it mean what they meant. -/
theorem lookup?_declare_namesake :
    let t := (initial 15).after namesake
    t.Reachable ∧ t.current = some ⟨8⟩ ∧ (t.declare ⟨24⟩).result = .ok () ∧
      t.lookup? "v1" = some ⟨17⟩ ∧ (t.declare ⟨24⟩).table.lookup? "v1" = some ⟨24⟩ ∧
      (t.declare ⟨24⟩).table.lookup? "v2" = t.lookup? "v2" ∧
      ((t.declare ⟨24⟩).table.scope ⟨7⟩).objects = (t.scope ⟨7⟩).objects := by
  intro t
  have hadmits : (initial 15).Admits namesake := by decide
  have hreachable : t.Reachable := (Reachable.initial 15).after hadmits
  have hcurrent : t.current = some ⟨8⟩ := by decide
  have haccepted : (t.declare ⟨24⟩).result = .ok () := by decide
  have hafter := hreachable.lookup?_declare hcurrent haccepted
  exact ⟨hreachable, hcurrent, haccepted, by decide, hafter.ofNew (by decide),
    hafter.ofOther "v2" (by decide), hafter.objects ⟨7⟩ (by decide)⟩

end BlockScope.Table
