import PropCatalog.Proofs.Interface.Table
import PropCatalog.Proofs.Text.Nesting

/-!
# Reading back a written property

A property is written as `name: type` or `name?: type`. The line is a member of its own, because its
type has its separators inside brackets, and it is read back as the property it was written for
(`Property.WellFormed.ofMember?_line`).
-/

namespace PropCatalog

namespace Property

/-- The line that declares a property, without the blanks before it and the semicolon. -/
def line (p : Property) : Text :=
  p.name ++ ((if p.optional then ['?'] else []) ++ ':' :: ' ' :: p.type)

/-- A property that can be declared on a line of its own. -/
structure WellFormed (p : Property) : Prop where
  name_isIdent : Text.isIdent p.name = true
  type_ne_nil : p.type ≠ []
  type_trimmed : Text.trim p.type = p.type
  /-- The brackets of the type are properly nested, with all semicolons and newlines inside. -/
  type_nested : Bracket.Nested (fun c => ¬ Interface.IsSeparator c) p.type
  type_silent : ¬ Interface.keyword <:+: p.type

variable {p : Property}

theorem exists_line_eq (p : Property) :
    ∃ c rest, (c = '?' ∨ c = ':') ∧ p.line = p.name ++ c :: rest := by
  cases h : p.optional with
  | true => exact ⟨'?', ':' :: ' ' :: p.type, Or.inl rfl, by simp [line, h]⟩
  | false => exact ⟨':', ' ' :: p.type, Or.inr rfl, by simp [line, h]⟩

theorem signature?_line (h : Text.isIdent p.name = true) :
    signature? p.line = some { p with type := ' ' :: p.type } := by
  obtain ⟨name, optional, type⟩ := p
  cases optional with
  | true =>
    have hident : Text.ident? (name ++ '?' :: ':' :: ' ' :: type) =
        some (name, '?' :: ':' :: ' ' :: type) := Text.ident?_append h rfl
    change (Text.ident? (name ++ '?' :: ':' :: ' ' :: type)).bind _ = _
    rw [hident]
    rfl
  | false =>
    have hident : Text.ident? (name ++ ':' :: ' ' :: type) =
        some (name, ':' :: ' ' :: type) := Text.ident?_append h rfl
    change (Text.ident? (name ++ ':' :: ' ' :: type)).bind _ = _
    rw [hident]
    rfl

theorem declaration?_line (h : Text.isIdent p.name = true) :
    declaration? p.line = signature? p.line := by
  have hnone : (Text.after? "readonly".toList p.line).bind (Text.afterBlanks? signature?) =
      none := by
    rw [Option.bind_eq_none_iff]
    intro rest hrest
    obtain ⟨c, tail, hc, hline⟩ := p.exists_line_eq
    have hword : ∀ d ∈ "readonly".toList, Text.isIdentRest d = true :=
      List.all_eq_true.1 (by decide)
    have hstop : ¬ Text.isIdentRest c = true := by rcases hc with rfl | rfl <;> decide
    cases rest with
    | nil => rfl
    | cons d rest =>
      rw [Text.afterBlanks?, if_neg]
      intro hblank
      -- a blank would end the name of the property, which ends at `c`
      have hsplit := (Text.after?_eq_some_iff.1 hrest).symm.trans hline
      have hafter := congrArg (List.dropWhile Text.isIdentRest) hsplit
      rw [List.dropWhile_append_of_pos hword,
        List.dropWhile_append_of_pos fun e he => Text.isIdentRest_of_mem h he,
        List.dropWhile_cons_of_neg (by simp [Text.isIdentRest_of_isBlank hblank]),
        List.dropWhile_cons_of_neg hstop] at hafter
      obtain ⟨rfl, -⟩ := List.cons.inj hafter
      rcases hc with rfl | rfl <;> cases hblank
  rw [declaration?, hnone]

namespace WellFormed

variable (h : p.WellFormed)

include h

theorem typeText_eq : typeText (' ' :: p.type) = p.type := by
  obtain ⟨hhead, hlast⟩ := Text.not_blank_of_trim_eq_self h.type_trimmed
  have htrim : Text.trim (' ' :: p.type) = p.type := by
    have hblank : [' '].all Text.isBlank = true := rfl
    exact Text.trim_append hblank hhead hlast
  have hend : Text.before? [';'] p.type = none := by
    rw [Option.eq_none_iff_forall_ne_some]
    intro rest hrest
    have htype := Text.before?_eq_some_iff.1 hrest
    have hsemicolon := h.type_nested.getLast? ';' (by rw [htype]; simp)
    rcases hsemicolon with hcloser | hseparator
    · cases hcloser
    · exact hseparator (Or.inl rfl)
  rw [typeText, htrim, hend]
  exact h.type_trimmed

theorem line_not_blank : p.line.head?.any Text.isBlank = false ∧
    p.line.getLast?.any Text.isBlank = false := by
  obtain ⟨n, hn, -, hblank⟩ := Text.head?_of_isIdent h.name_isIdent
  obtain ⟨-, hlast⟩ := Text.not_blank_of_trim_eq_self h.type_trimmed
  constructor
  · rw [line, List.head?_append, hn]
    simpa using hblank
  · obtain ⟨c, type, htype⟩ := List.exists_cons_of_ne_nil h.type_ne_nil
    have hline : p.line.getLast? = p.type.getLast? := by
      rw [line, htype]
      cases p.optional <;> simp [List.getLast?_append, List.getLast?_cons]
    rwa [hline]

/-- A line is read back as its property. -/
theorem ofMember?_line : ofMember? p.line = some p := by
  obtain ⟨hhead, hlast⟩ := h.line_not_blank
  have hnone : ([] : Text).all Text.isBlank = true := rfl
  have htrim : Text.trim p.line = p.line := Text.trim_append hnone hhead hlast
  rw [ofMember?, htrim, declaration?_line h.name_isIdent, signature?_line h.name_isIdent]
  change (if typeText (' ' :: p.type) = [] then none else some _) = _
  rw [h.typeText_eq, if_neg h.type_ne_nil]

theorem isComment_line : Interface.isComment p.line = false := by
  obtain ⟨n, hn, hstart, -⟩ := Text.head?_of_isIdent h.name_isIdent
  obtain ⟨name, hname⟩ := List.head?_eq_some_iff.1 hn
  have hslash : '/' ≠ n := by
    rintro rfl
    cases hstart
  have hstar : '*' ≠ n := by
    rintro rfl
    cases hstart
  simp [Interface.isComment, line, hname, Text.startsWith, Text.after?, hslash, hstar]

end WellFormed

end Property

end PropCatalog
