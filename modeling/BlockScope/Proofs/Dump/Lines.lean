import BlockScope.Proofs.Dump.Render

namespace BlockScope

/-- The lines that the characters make up. A line break ends a line and belongs to none. What
follows the last line break is a line too, unless it is empty. -/
def linesOf : List Char → List (List Char)
  | [] => []
  | c :: rest =>
    if c = '\n' then
      [] :: linesOf rest
    else
      match linesOf rest with
      | [] => [[c]]
      | line :: later => (c :: line) :: later

/-- The lines of a text. -/
def lines (text : String) : List String :=
  (linesOf text.toList).map String.ofList

/-- The line with `indent` spaces put before it. -/
def indented (indent : Nat) (line : String) : String :=
  String.ofList (List.replicate indent ' ') ++ line

private theorem linesOf_append_newline {line rest : List Char} (h : '\n' ∉ line) :
    linesOf (line ++ '\n' :: rest) = line :: linesOf rest := by
  induction line with
  | nil => simp [linesOf]
  | cons c line ih =>
    have hc : c ≠ '\n' := fun heq => h (heq ▸ List.mem_cons_self)
    have hline : '\n' ∉ line := fun hmem => h (List.mem_cons_of_mem c hmem)
    simp [linesOf, hc, ih hline]

/-- Lines that are put one below the other are found again. -/
theorem lines_join {list : List String} (h : ∀ line ∈ list, '\n' ∉ line.toList) :
    lines (String.join (list.map (· ++ "\n"))) = list := by
  have hbreak : "\n".toList = ['\n'] := rfl
  induction list with
  | nil => rfl
  | cons line later ih =>
    obtain ⟨hline, hlater⟩ := List.forall_mem_cons.mp h
    have hrest := ih hlater
    simp only [lines, String.toList_join, List.map_cons, List.flatMap_cons, String.toList_append,
      hbreak, List.append_assoc, List.singleton_append] at hrest ⊢
    rw [linesOf_append_newline hline, List.map_cons, hrest, String.ofList_toList]

private theorem Heading.newline_not_mem_indented {h : Heading} (honeLine : h.OnOneLine)
    (indent : Nat) :
    '\n' ∉ (indented indent h.text).toList := by
  simp [indented, honeLine.newline_not_mem_text]

namespace Forest

variable {f : Forest Heading} {indent : Nat}

/-- The dump of headings has a line for each of them, in preorder and indented by its depth. -/
theorem lines_render (h : ∀ heading ∈ f.preorder, heading.OnOneLine) :
    lines (f.render indent) = (f.outline 0).map fun (depth, heading) =>
      indented (indent + indentStep * depth) heading.text := by
  refine Eq.trans ?_ (lines_join fun line hline => ?_)
  · rw [List.map_map]
    rfl
  · obtain ⟨entry, hentry, rfl⟩ := List.mem_map.mp hline
    exact Heading.newline_not_mem_indented (h _ (mem_preorder_of_mem_outline hentry)) _

end Forest

end BlockScope
