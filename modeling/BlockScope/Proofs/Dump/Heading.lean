import BlockScope.Proofs.Declarations.Headings
import BlockScope.Proofs.Dump.Text

namespace BlockScope

/-- The word with which the line of an object of the kind begins. -/
def Kind.keyword : Kind → String
  | .program => "Program"
  | .constant => "Const"
  | .alias => "Type"
  | .var => "Var"
  | .function => "Function"
  | .procedure => "Procedure"
  | .parameter => "Param"

private theorem Kind.space_not_mem_keyword (kind : Kind) : ' ' ∉ kind.keyword.toList := by
  cases kind <;> decide

private theorem Kind.keyword_injective : Function.Injective Kind.keyword := by
  intro kind kind' h
  cases kind <;> cases kind' <;> first | rfl | exact absurd h (by decide)

namespace Heading

def mode? : Heading → Option ParamMode
  | parameter _ mode _ => some mode
  | _ => none

def ty? : Heading → Option Ty
  | .alias _ ty | var _ ty | function _ ty | parameter _ _ ty => ty
  | program _ | constant .. | procedure _ => none

def value? : Heading → Option Literal
  | constant _ value => value
  | _ => none

/-- What a heading is made of. -/
theorem eq_iff {h h' : Heading} : h = h' ↔ h.kind = h'.kind ∧ h.name = h'.name ∧
    h.mode? = h'.mode? ∧ h.ty? = h'.ty? ∧ h.value? = h'.value? := by
  refine ⟨fun heq => by simp [heq], ?_⟩
  rintro ⟨hkind, hname, hmode, hty, hvalue⟩
  cases h <;> cases h' <;> try cases hkind
  all_goals simp_all [name, mode?, ty?, value?]

/-- What comes after the first word and the space that follows it. -/
def details : Heading → List Char
  | program name | procedure name => name.toList
  | constant name value =>
    name.toList ++ ' ' :: '=' :: ' ' :: (orUnknown (value.map Literal.text)).toList
  | .alias name ty => name.toList ++ ' ' :: '=' :: ' ' :: (orUnknown (ty.map Ty.text)).toList
  | var name ty | function name ty | parameter name .byValue ty =>
    name.toList ++ ' ' :: ':' :: ' ' :: (orUnknown (ty.map Ty.text)).toList
  | parameter name .byReference ty =>
    ['V', 'A', 'R'] ++
      ' ' :: (name.toList ++ ' ' :: ':' :: ' ' :: (orUnknown (ty.map Ty.text)).toList)

theorem toList_text (h : Heading) : h.text.toList = h.kind.keyword.toList ++ ' ' :: h.details := by
  have hequals : " = ".toList = [' ', '=', ' '] := rfl
  have hcolon : " : ".toList = [' ', ':', ' '] := rfl
  have hprogram : "Program ".toList = "Program".toList ++ [' '] := rfl
  have hconst : "Const ".toList = "Const".toList ++ [' '] := rfl
  have htype : "Type ".toList = "Type".toList ++ [' '] := rfl
  have hvar : "Var ".toList = "Var".toList ++ [' '] := rfl
  have hfunction : "Function ".toList = "Function".toList ++ [' '] := rfl
  have hprocedure : "Procedure ".toList = "Procedure".toList ++ [' '] := rfl
  have hparam : "Param ".toList = "Param".toList ++ [' '] := rfl
  have hparamVar : "Param VAR ".toList = "Param".toList ++ [' ', 'V', 'A', 'R', ' '] := rfl
  unfold text kind details
  split <;> simp only [Kind.keyword, String.toList_append, List.append_assoc, List.cons_append,
    List.nil_append, hequals, hcolon, hprogram, hconst, htype, hvar, hfunction, hprocedure, hparam,
    hparamVar]

/-- The text of a heading begins with its kind, and what follows is told apart from it. -/
private theorem kind_details_inj {h h' : Heading} (heq : h.text = h'.text) :
    h.kind = h'.kind ∧ h.details = h'.details := by
  have hlist := congrArg String.toList heq
  rw [toList_text, toList_text] at hlist
  obtain ⟨hkeyword, hdetails⟩ :=
    append_cons_inj h.kind.space_not_mem_keyword h'.kind.space_not_mem_keyword hlist
  exact ⟨Kind.keyword_injective (String.toList_injective hkeyword), hdetails⟩

/-- A question mark stands for nothing else. -/
private theorem orUnknown_inj {α : Type} {text : α → String} (hinj : Function.Injective text)
    (hknown : ∀ a, text a ≠ "?") {found found' : Option α}
    (heq : orUnknown (found.map text) = orUnknown (found'.map text)) : found = found' := by
  cases found with
  | none =>
    cases found' with
    | none => rfl
    | some a => exact absurd heq.symm (hknown a)
  | some a =>
    cases found' with
    | none => exact absurd heq (hknown a)
    | some a' => exact congrArg some (hinj heq)

private theorem head?_ty_text (ty : Ty) :
    ty.text.toList.head? ∈ [some 'I', some 'C', some 'A'] := by
  cases ty with
  | int => simp [Ty.toList_text_int]
  | char => simp [Ty.toList_text_char]
  | array size element => simp [Ty.toList_text_array]

private theorem ty_text_ne (ty : Ty) : ty.text ≠ "?" := fun heq => by
  have hmem := head?_ty_text ty
  rw [heq] at hmem
  exact absurd hmem (by decide)

/-- Neither a type nor the mark for a missing one begins with a colon. -/
private theorem head?_orUnknown_ne (ty : Option Ty) :
    (orUnknown (ty.map Ty.text)).toList.head? ≠ some ':' := by
  cases ty with
  | none => decide
  | some ty =>
    intro hcolon
    have hfirst : ty.text.toList.head? = some ':' := hcolon
    have hmem := head?_ty_text ty
    rw [hfirst] at hmem
    exact absurd hmem (by decide)

private theorem literal_text_ne (value : Literal) : value.text ≠ "?" := fun heq => by
  have hmark : '?' ∈ value.text.toList := by
    rw [heq]
    decide
  cases value with
  | int n =>
    simp only [Literal.text, Int.toString_eq_repr] at hmark
    exact absurd (isDigit_or_eq_of_mem_repr hmark) (by decide)
  | char c =>
    have hlength := congrArg String.length heq
    simp only [Literal.text, String.length_append, String.length_singleton] at hlength
    exact absurd hlength (by decide)

/-- A name without spaces is told apart from what follows it. -/
private theorem named_inj {name name' : String} {rest rest' : List Char} (hname : ' ' ∉ name.toList)
    (hname' : ' ' ∉ name'.toList)
    (heq : name.toList ++ ' ' :: rest = name'.toList ++ ' ' :: rest') :
    name = name' ∧ rest = rest' := by
  obtain ⟨hsame, hrest⟩ := append_cons_inj hname hname' heq
  exact ⟨String.toList_injective hsame, hrest⟩

/-- A name without spaces and the type after it are told apart. -/
private theorem typed_inj {name name' : String} {mark : Char} {ty ty' : Option Ty}
    (hname : ' ' ∉ name.toList) (hname' : ' ' ∉ name'.toList)
    (heq : name.toList ++ ' ' :: mark :: ' ' :: (orUnknown (ty.map Ty.text)).toList =
      name'.toList ++ ' ' :: mark :: ' ' :: (orUnknown (ty'.map Ty.text)).toList) :
    name = name' ∧ ty = ty' := by
  obtain ⟨rfl, hrest⟩ := named_inj hname hname' heq
  have htext := (List.cons.inj (List.cons.inj hrest).2).2
  exact ⟨rfl, orUnknown_inj Ty.text_injective ty_text_ne (String.toList_injective htext)⟩

/-- A parameter whose name is the word for passing by reference is not taken for one that is passed
so: after the word comes a colon, with which no type begins. -/
private theorem byValue_ne_byReference {name name' : String} {ty ty' : Option Ty}
    (hname : ' ' ∉ name.toList) (hname' : ' ' ∉ name'.toList) :
    (parameter name .byValue ty).details ≠ (parameter name' .byReference ty').details := by
  intro heq
  obtain ⟨_, hrest⟩ := append_cons_inj hname (by decide) heq
  have hcolon : ' ' ∉ [':'] := by decide
  obtain ⟨_, htype⟩ := append_cons_inj hcolon hname' hrest
  exact head?_orUnknown_ne ty (by rw [htype]; rfl)

/-- A heading shows all that it is made of, if there is no space in its name. -/
theorem text_inj {h h' : Heading} (hname : ' ' ∉ h.name.toList) (hname' : ' ' ∉ h'.name.toList)
    (heq : h.text = h'.text) : h = h' := by
  obtain ⟨hkind, hdetails⟩ := kind_details_inj heq
  cases h <;> cases h' <;> try cases hkind
  case program.program => rw [String.toList_injective hdetails]
  case constant.constant name value name' value' =>
    obtain ⟨rfl, hrest⟩ := named_inj hname hname' hdetails
    have htext := String.toList_injective (List.cons.inj (List.cons.inj hrest).2).2
    exact congrArg (constant name) (orUnknown_inj Literal.text_injective literal_text_ne htext)
  case alias.alias =>
    obtain ⟨rfl, rfl⟩ := typed_inj hname hname' hdetails
    rfl
  case var.var =>
    obtain ⟨rfl, rfl⟩ := typed_inj hname hname' hdetails
    rfl
  case function.function =>
    obtain ⟨rfl, rfl⟩ := typed_inj hname hname' hdetails
    rfl
  case procedure.procedure => rw [String.toList_injective hdetails]
  case parameter.parameter name mode ty name' mode' ty' =>
    cases mode <;> cases mode'
    case byValue.byValue =>
      obtain ⟨rfl, rfl⟩ := typed_inj hname hname' hdetails
      rfl
    case byValue.byReference => exact absurd hdetails (byValue_ne_byReference hname hname')
    case byReference.byValue => exact absurd hdetails.symm (byValue_ne_byReference hname' hname)
    case byReference.byReference =>
      have hrest := (List.cons.inj (List.append_cancel_left hdetails)).2
      obtain ⟨rfl, rfl⟩ := typed_inj hname hname' hrest
      rfl

end Heading

end BlockScope
