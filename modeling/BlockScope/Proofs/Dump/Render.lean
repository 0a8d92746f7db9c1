import BlockScope.Dump
import BlockScope.Proofs.Dump.Heading

namespace BlockScope

/-- What repeats an element at the front tells how often it does so, if something else comes
next. -/
private theorem replicate_append_inj {α : Type} {a : α} {n n' : Nat} {rest rest' : List α}
    (h : rest.head? ≠ some a) (h' : rest'.head? ≠ some a)
    (heq : List.replicate n a ++ rest = List.replicate n' a ++ rest') : n = n' ∧ rest = rest' := by
  induction n generalizing n' with
  | zero =>
    cases n' with
    | zero => exact ⟨rfl, heq⟩
    | succ n' => exact absurd (congrArg List.head? heq) h
  | succ n ih =>
    cases n' with
    | zero => exact absurd (congrArg List.head? heq).symm h'
    | succ n' =>
      obtain ⟨rfl, hrest⟩ := ih (List.cons.inj heq).2
      exact ⟨rfl, hrest⟩

namespace Forest

variable {α : Type} {f g : Forest α} {depth : Nat} {rest rest' : List (Nat × α)}

private theorem head?_outline_append (hrest : ∀ entry ∈ rest.head?, entry.1 < depth) :
    ∀ entry ∈ (f.outline depth ++ rest).head?, entry.1 < depth + 1 := by
  cases f with
  | nil => exact fun entry hentry => Nat.lt_succ_of_lt (hrest entry hentry)
  | cons root below after =>
    intro entry hentry
    obtain rfl : (depth, root) = entry := by simpa [outline] using hentry
    exact Nat.lt_succ_self depth

/-- A forest ends where its outline goes on further out than it began. The depths of the nodes in
preorder therefore tell how they are nested. -/
private theorem outline_append_inj (hrest : ∀ entry ∈ rest.head?, entry.1 < depth)
    (hrest' : ∀ entry ∈ rest'.head?, entry.1 < depth)
    (heq : f.outline depth ++ rest = g.outline depth ++ rest') : f = g ∧ rest = rest' := by
  induction f generalizing g depth rest rest' with
  | nil =>
    cases g with
    | nil => exact ⟨rfl, heq⟩
    | cons root below after =>
      obtain rfl : rest = _ := heq
      exact absurd (hrest (depth, root) rfl) (Nat.lt_irrefl depth)
  | cons root below after ihBelow ihAfter =>
    cases g with
    | nil =>
      obtain rfl : rest' = _ := heq.symm
      exact absurd (hrest' (depth, root) rfl) (Nat.lt_irrefl depth)
    | cons root' below' after' =>
      simp only [outline, List.cons_append, List.append_assoc] at heq
      obtain ⟨hroot, hlater⟩ := List.cons.inj heq
      obtain rfl : root = root' := congrArg Prod.snd hroot
      obtain ⟨rfl, hafter⟩ :=
        ihBelow (head?_outline_append hrest) (head?_outline_append hrest') hlater
      obtain ⟨rfl, hend⟩ := ihAfter hrest hrest' hafter
      exact ⟨rfl, hend⟩

private theorem outline_injective (depth : Nat) :
    Function.Injective (outline depth : Forest α → List (Nat × α)) := fun f g h => by
  have hend : ∀ entry ∈ ([] : List (Nat × α)).head?, entry.1 < depth := nofun
  have hsame : f.outline depth ++ [] = g.outline depth ++ [] := by rw [h]
  exact (outline_append_inj hend hend hsame).1

theorem mem_preorder_of_mem_outline {entry : Nat × α} (h : entry ∈ f.outline depth) :
    entry.2 ∈ f.preorder := by
  induction f generalizing depth with
  | nil => cases h
  | cons root below after ihBelow ihAfter =>
    rw [preorder, List.mem_cons, List.mem_append]
    obtain rfl | hlater := List.mem_cons.mp h
    · exact .inl rfl
    · obtain hbelow | hafter := List.mem_append.mp hlater
      · exact .inr (.inl (ihBelow hbelow))
      · exact .inr (.inr (ihAfter hafter))

end Forest

/-- The heading has neither a space nor a line break in its name, and does not show a line break
as a constant. -/
structure Heading.Plain (h : Heading) : Prop where
  space : ' ' ∉ h.name.toList
  newline : '\n' ∉ h.name.toList
  value : h.value? ≠ some (.char '\n')

/-- The heading has no line break in its name and does not show one as a constant. -/
structure Heading.OnOneLine (h : Heading) : Prop where
  newline : '\n' ∉ h.name.toList
  value : h.value? ≠ some (.char '\n')

instance (h : Heading) : Decidable h.OnOneLine :=
  decidable_of_iff ('\n' ∉ h.name.toList ∧ h.value? ≠ some (.char '\n'))
    ⟨fun h => ⟨h.1, h.2⟩, fun h => ⟨h.1, h.2⟩⟩

private theorem Heading.Plain.onOneLine {h : Heading} (hplain : h.Plain) : h.OnOneLine :=
  ⟨hplain.newline, hplain.value⟩

theorem newline_not_mem_repr (n : Int) : '\n' ∉ n.repr.toList := fun h =>
  absurd (isDigit_or_eq_of_mem_repr h) (by decide)

theorem Ty.newline_not_mem_text (ty : Ty) : '\n' ∉ ty.text.toList := by
  induction ty with
  | int => decide
  | char => decide
  | array size element ih => simp [toList_text_array, newline_not_mem_repr, ih]

theorem Literal.newline_not_mem_text {value : Literal} (h : value ≠ .char '\n') :
    '\n' ∉ value.text.toList := by
  cases value with
  | int n => exact newline_not_mem_repr n.toInt
  | char c =>
    have hother : '\n' ≠ c := fun heq => h (by rw [heq])
    simp [text, hother]

namespace Heading

private theorem newline_not_mem_orUnknown {α : Type} {text : α → String} {found : Option α}
    (h : ∀ a ∈ found, '\n' ∉ (text a).toList) :
    '\n' ∉ (orUnknown (found.map text)).toList := by
  cases found with
  | none =>
    have hmark : '\n' ∉ "?".toList := by decide
    exact hmark
  | some a => exact h a rfl

theorem OnOneLine.newline_not_mem_text {h : Heading} (honeLine : h.OnOneLine) :
    '\n' ∉ h.text.toList := by
  have hty (ty : Option Ty) : '\n' ∉ (orUnknown (ty.map Ty.text)).toList :=
    newline_not_mem_orUnknown fun ty _ => ty.newline_not_mem_text
  have hvalue : '\n' ∉ (orUnknown (h.value?.map Literal.text)).toList :=
    newline_not_mem_orUnknown fun value hmem =>
      Literal.newline_not_mem_text fun heq => honeLine.value (heq ▸ hmem)
  have hname := honeLine.newline
  have hkeyword : '\n' ∉ h.kind.keyword.toList := by cases h.kind <;> decide
  have hdetails : '\n' ∉ h.details := by
    cases h with
    | program name => exact hname
    | constant name value => simpa [details] using ⟨hname, hvalue⟩
    | «alias» name actual => simpa [details] using ⟨hname, hty actual⟩
    | var name ty => simpa [details] using ⟨hname, hty ty⟩
    | function name result => simpa [details] using ⟨hname, hty result⟩
    | procedure name => exact hname
    | parameter name mode ty =>
      cases mode <;> simpa [details] using ⟨hname, hty ty⟩
  simp [toList_text, hkeyword, hdetails]

private theorem head?_text (h : Heading) : h.text.toList.head? ≠ some ' ' := by
  rw [toList_text]
  cases h.kind <;> simp [Kind.keyword]

private theorem toList_line (indent : Nat) (h : Heading) : (h.line indent).toList =
    (List.replicate indent ' ' ++ h.text.toList) ++ ['\n'] := by
  have hbreak : "\n".toList = ['\n'] := rfl
  simp only [line, String.toList_append, String.toList_ofList, hbreak]

/-- A line tells how far to the right it stands and which heading it shows, and where it ends. -/
private theorem line_append_inj {h h' : Heading} {indent indent' : Nat} {rest rest' : List Char}
    (hplain : h.Plain) (hplain' : h'.Plain)
    (heq : (h.line indent).toList ++ rest = (h'.line indent').toList ++ rest') :
    indent = indent' ∧ h = h' ∧ rest = rest' := by
  have hsingle {h : Heading} {indent : Nat} (hplain : h.Plain) :
      '\n' ∉ List.replicate indent ' ' ++ h.text.toList := by
    simp [hplain.onOneLine.newline_not_mem_text]
  rw [toList_line, toList_line, List.append_assoc _ _ rest, List.append_assoc _ _ rest'] at heq
  obtain ⟨hline, hrest⟩ := append_cons_inj (hsingle hplain) (hsingle hplain') heq
  obtain ⟨hindent, htext⟩ := replicate_append_inj h.head?_text h'.head?_text hline
  exact ⟨hindent, text_inj hplain.space hplain'.space (String.toList_injective htext), hrest⟩

end Heading

open Heading in
/-- The lines one below the other tell what stands on each of them. -/
private theorem lines_inj {indent : Nat} {entries entries' : List (Nat × Heading)}
    (hplain : ∀ entry ∈ entries, entry.2.Plain) (hplain' : ∀ entry ∈ entries', entry.2.Plain)
    (heq : entries.flatMap (fun entry => (entry.2.line (indent + indentStep * entry.1)).toList) =
      entries'.flatMap fun entry => (entry.2.line (indent + indentStep * entry.1)).toList) :
    entries = entries' := by
  induction entries generalizing entries' with
  | nil =>
    cases entries' with
    | nil => rfl
    | cons entry' later' => simp [toList_line] at heq
  | cons entry later ih =>
    cases entries' with
    | nil => simp [toList_line] at heq
    | cons entry' later' =>
      obtain ⟨hentry, hlater⟩ := List.forall_mem_cons.mp hplain
      obtain ⟨hentry', hlater'⟩ := List.forall_mem_cons.mp hplain'
      obtain ⟨hindent, hheading, hrest⟩ := line_append_inj hentry hentry' heq
      have hdepth : entry.1 = entry'.1 :=
        Nat.eq_of_mul_eq_mul_left (by decide) (Nat.add_left_cancel hindent)
      rw [Prod.ext hdepth hheading, ih hlater hlater' hrest]

/-- Rendering loses nothing of a forest of plain headings. -/
theorem Forest.render_inj {indent : Nat} {f g : Forest Heading} (hf : ∀ h ∈ f.preorder, h.Plain)
    (hg : ∀ h ∈ g.preorder, h.Plain) (heq : f.render indent = g.render indent) : f = g := by
  have hlines := congrArg String.toList heq
  simp only [render, String.toList_join, List.flatMap_map] at hlines
  refine outline_injective 0 (lines_inj (fun entry hentry => ?_) (fun entry hentry => ?_) hlines)
  · exact hf entry.2 (mem_preorder_of_mem_outline hentry)
  · exact hg entry.2 (mem_preorder_of_mem_outline hentry)

end BlockScope
