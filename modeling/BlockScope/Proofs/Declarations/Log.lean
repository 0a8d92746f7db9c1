import BlockScope.Release
import BlockScope.Proofs.Declarations.Headings
import BlockScope.Proofs.Table.Operations

namespace BlockScope

/-- The names of objects that the event mentions. -/
def Event.names : Event → List String
  | .entered owner _ | .exited owner _ => [owner]
  | .strayParameter name _ => [name]
  | .declared _ name host => [name, host]
  | .opened _ | .limited _ | .orphaned _ | .released .. => []

/-- A release mentions no names. -/
theorem Table.names_of_mem_releaseLog {t : Table} {e : Event} (he : e ∈ t.releaseLog) :
    e.names = [] := by
  unfold releaseLog at he
  split at he
  · unfold Report.log at he
    obtain horphans | hreleased := List.mem_append.mp he
    · split at horphans
      · rw [List.mem_singleton.mp horphans]
        rfl
      · cases horphans
    · rw [List.mem_singleton.mp hreleased]
      rfl
  · cases he

/-- All objects of the table have names with the property, and so has the name read at a handle of
none. -/
def Table.Named (P : String → Prop) (t : Table) : Prop :=
  ∀ o, P (t.name o)

/-- The operation leaves only names with the property, and mentions no others in what it reports. -/
structure Outcome.Mentions {α : Type} (P : String → Prop) (o : Outcome α) : Prop where
  named : o.table.Named P
  log : ∀ e ∈ o.log, ∀ name ∈ e.names, P name

variable {P : String → Prop}

namespace Outcome.Mentions

variable {α β : Type} {t : Table} {first : Outcome α} {next : α → Table → Outcome β}

theorem accepted {log : List Event} (a : α) (h : t.Named P)
    (hlog : ∀ e ∈ log, ∀ name ∈ e.names, P name) : (Outcome.accepted a t log).Mentions P :=
  ⟨h, hlog⟩

theorem refused (e : SemanticError) (h : t.Named P) :
    (Outcome.refused e t : Outcome α).Mentions P :=
  ⟨h, nofun⟩

theorem andThen (hfirst : first.Mentions P)
    (hnext : ∀ a {t : Table}, t.Named P → (next a t).Mentions P) :
    (first.andThen next).Mentions P := by
  unfold Outcome.andThen
  cases first.result with
  | error e => exact ⟨hfirst.named, hfirst.log⟩
  | ok a =>
    have hrest := hnext a hfirst.named
    exact ⟨hrest.named, List.forall_mem_append.mpr ⟨hfirst.log, hrest.log⟩⟩

theorem map {γ : Type} (f : α → γ) (h : first.Mentions P) : (first.map f).Mentions P :=
  ⟨h.named, h.log⟩

end Outcome.Mentions

namespace Table

open Outcome

variable {t : Table} {name : String}

private theorem create_mentions (h : t.Named P) (b : Blueprint) (hname : P name) :
    (t.create b name).Mentions P := by
  obtain ⟨e, hrefused⟩ | ⟨haccepted, _⟩ := t.create_cases b name
  · rw [hrefused]
    exact .refused e h
  · rw [haccepted]
    refine .accepted _ (fun o => ?_) nofun
    unfold Table.name
    rw [object_allocate]
    split
    · exact hname
    · exact h o

private theorem assign_mentions (h : t.Named P) (o : ObjectId) (a : Assignment) :
    (t.assign o a).Mentions P := by
  obtain ⟨e, hrefused⟩ | ⟨haccepted, _⟩ := t.assign_cases o a
  · rw [hrefused]
    exact .refused e h
  · rw [haccepted]
    exact .accepted _ (fun p => (name_assign o p a).symm ▸ h p) nofun

private theorem declare_mentions (h : t.Named P) (o : ObjectId) : (t.declare o).Mentions P := by
  obtain ⟨e, hrefused⟩ | ⟨s, haccepted, _⟩ := t.declare_cases o
  · rw [hrefused]
    exact .refused e h
  · rw [haccepted]
    refine .accepted _ (fun p => (name_enlist s o p).symm ▸ h p) ?_
    have hobject := h o
    have hhost := h (t.scope s).owner
    unfold Table.name at hobject hhost
    unfold declarationLog
    dsimp only
    split <;> simp [Event.names, hobject, hhost]

private theorem enterBody_mentions (h : t.Named P) (o : ObjectId) : (t.enterBody o).Mentions P := by
  unfold enterBody enter
  split
  · dsimp only
    split
    · exact .refused _ h
    · split
      · exact .refused _ h
      · exact .accepted _ h (by simp [Event.names, h _])
  · exact .refused _ h

private theorem exit_mentions (h : t.Named P) : t.exit.Mentions P := by
  unfold exit
  split
  · exact .refused _ h
  · exact .accepted _ h (by simp [Event.names, h _])

private theorem introduceParam_mentions (h : t.Named P) (hname : P name) (mode : ParamMode)
    (ty : Ty) :
    (t.introduceParam name mode ty).Mentions P := by
  unfold introduceParam
  split
  · exact .refused _ h
  · exact (create_mentions h _ hname).andThen fun o _ h => (assign_mentions h o _).andThen
      fun _ _ h => (declare_mentions h o).andThen fun _ _ h => .accepted o h nofun

end Table

open Table

/-- Loading mentions no names but those of the table and of the program. -/
theorem Program.load_mentions (p : Program) (hp : ∀ h ∈ p.headings, P h.name) {t : Table}
    (h : t.Named P) : (p.load t).Mentions P := by
  have hcomposes : Composes P fun f => ∀ t : Table, t.Named P → (f t).Mentions P := {
    accepted := fun a _ h => .accepted a h nofun
    andThen := fun hfirst hnext t h => (hfirst t h).andThen fun a t h => hnext a t h
    create := fun b _ hname _ h => create_mentions h b hname
    assign := fun o a _ h => assign_mentions h o a
    declare := fun o _ h => declare_mentions h o
    introduceParam := fun mode ty hname _ h => introduceParam_mentions h hname mode ty
    enterBody := fun o _ h => enterBody_mentions h o
    exit := fun _ h => exit_mentions h }
  exact hcomposes.load_program p hp t h

end BlockScope
