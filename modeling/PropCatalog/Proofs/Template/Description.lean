import PropCatalog.Proofs.Interface.Declarations
import PropCatalog.Proofs.Text.Occurrence
import PropCatalog.Proofs.Text.Runs
import PropCatalog.Template.Description

/-!
# Where descriptions come from

The description of a component comes from a block above its properties interface, or else above its
definition: the text from the last `/**` on that stands before `*/` and white space. The block need
not be a comment. It is one if it holds no other `*/`, and otherwise there is no comment there that
starts with `/**`, so that the line that is found is one of an earlier comment or of the code behind
it (`description?_eq_some_iff_above`).
-/

namespace PropCatalog.Template

open Interface (IsHead afterWord?_eq_some_iff headOf?_eq_some_iff)

variable {before : Option Char} {component content d interface name pre rest s : Text}

/-! ## Places -/

/-- Where a text can start, by the character before it. -/
abbrev Place := Option Char → Text → Prop

/-- The first place of its kind in a text is behind `pre`. -/
def IsFirst (place : Place) (content pre : Text) : Prop :=
  ∃ rest, content = pre ++ rest ∧ place pre.getLast? rest ∧
    ∀ a b, pre = a ++ b → b ≠ [] → ¬ place a.getLast? (b ++ rest)

/-- The recogniser accepts at the places of a kind. -/
def Recognises (m : Option Char → Text → Option Text) (place : Place) : Prop :=
  ∀ before s, (m before s).isSome = true ↔ place before s

/-- Behind the word and blanks starts what is asked for. -/
def Follows (word : Text) (place : Place) (s : Text) : Prop :=
  ∃ blanks t, blanks ≠ [] ∧ blanks.all Text.isBlank = true ∧ s = word ++ (blanks ++ t) ∧
    place (some ' ') t

/-- The place, or the word `export` before it. -/
def Exported (place : Place) : Place := fun before s =>
  Text.isBoundary before s = true ∧ Follows "export".toList place s

/-- A declaration of an interface, exported or not. -/
def InterfacePlace (name : Text) : Place := fun before s =>
  Exported (fun before s => ∃ rest, IsHead before s name rest) before s ∨
    ∃ rest, IsHead before s name rest

/-- A name up to a word boundary. -/
def NamePlace (name : Text) : Place := fun _ s =>
  ∃ rest, s = name ++ rest ∧ Text.isBoundary name.getLast? rest = true

/-- A definition by `function` or `const`. -/
def NamedPlace (component : Text) : Place := fun before s =>
  Text.isBoundary before s = true ∧ (Follows "function".toList (NamePlace component) s ∨
    Follows "const".toList (NamePlace component) s)

/-- A definition of a component, exported, exported by default or not at all. -/
def DefinitionPlace (component : Text) : Place := fun before s =>
  Exported (fun before s => Follows "default".toList (NamedPlace component) s ∨
    NamedPlace component before s) before s ∨ NamedPlace component before s

theorem exists_search_iff {m : Option Char → Text → Option Text} {place : Place}
    (h : Recognises m place) :
    (∃ rest, Text.search m none content = some (pre, rest)) ↔ IsFirst place content pre := by
  have hnone : ∀ before s, m before s = none ↔ ¬ place before s := fun before s => by
    rw [← h before s, Option.not_isSome_iff_eq_none]
  simp only [Text.search_eq_some_iff, Option.or_none, hnone]
  constructor
  · rintro ⟨found, rest, hcontent, hfound, hpass⟩
    exact ⟨rest, hcontent, (h _ _).1 (Option.isSome_of_eq_some hfound), hpass⟩
  · rintro ⟨rest, hcontent, hplace, hpass⟩
    obtain ⟨found, hfound⟩ := Option.isSome_iff_exists.1 ((h _ _).2 hplace)
    exact ⟨found, rest, hcontent, hfound, hpass⟩

theorem isSome_afterWord_iff {m : Option Char → Text → Option Text} {place : Place}
    (h : Recognises m place) (hblank : ∀ c s, Text.isBlank c = true → ¬ place (some ' ') (c :: s))
    (word s : Text) :
    ((Text.after? word s).bind (Text.afterBlanks? (m (some ' ')))).isSome = true ↔
      Follows word place s := by
  have hreject : ∀ c s, Text.isBlank c = true → m (some ' ') (c :: s) = none := fun c s hc => by
    rw [← Option.not_isSome_iff_eq_none, h]
    exact hblank c s hc
  have hplace : ∀ t, place (some ' ') t ↔ ∃ rest, m (some ' ') t = some rest := fun t =>
    (h _ t).symm.trans Option.isSome_iff_exists
  simp only [Option.isSome_iff_exists, afterWord?_eq_some_iff hreject, Follows, hplace]
  constructor
  · rintro ⟨rest, blanks, t, hne, hblanks, hs, ht⟩
    exact ⟨blanks, t, hne, hblanks, hs, rest, ht⟩
  · rintro ⟨blanks, t, hne, hblanks, hs, rest, ht⟩
    exact ⟨rest, blanks, t, hne, hblanks, hs, ht⟩

theorem ne_append_of_isBlank {c : Char} {word : Text} (hword : Text.isIdent word = true)
    (hc : Text.isBlank c = true) (s rest : Text) : c :: s ≠ word ++ rest := by
  intro hs
  have hnone := Text.after?_eq_none_of_isBlank (s := s) hword hc
  rw [Text.after?_eq_some_iff.2 hs] at hnone
  cases hnone

theorem not_follows_of_isBlank {c : Char} {word : Text} {place : Place}
    (hword : Text.isIdent word = true) (hc : Text.isBlank c = true) :
    ¬ Follows word place (c :: s) := by
  rintro ⟨blanks, t, -, -, hs, -⟩
  exact ne_append_of_isBlank hword hc _ _ hs

theorem recognises_exported {m m' : Option Char → Text → Option Text} {place place' : Place}
    (h : Recognises m place) (h' : Recognises m' place')
    (hblank : ∀ c s, Text.isBlank c = true → ¬ place (some ' ') (c :: s)) :
    Recognises (fun before s => (if Text.isBoundary before s then
        (Text.after? "export".toList s).bind (Text.afterBlanks? (m (some ' '))) else none).or
      (m' before s)) fun before s => Exported place before s ∨ place' before s := by
  intro before s
  rw [Option.isSome_or, Bool.or_eq_true, h' before s]
  refine or_congr ?_ Iff.rfl
  by_cases hboundary : Text.isBoundary before s = true
  · rw [if_pos hboundary, isSome_afterWord_iff h hblank]
    exact (and_iff_right hboundary).symm
  · rw [if_neg hboundary]
    simp [Exported, hboundary]

/-! ## Interfaces -/

theorem match_eq_or (a b : Option Text) :
    (match a with
      | some rest => some rest
      | none => b) = a.or b := by
  cases a <;> rfl

theorem exported?_eq (m : Option Char → Text → Option Text) :
    exported? m = fun before s => (if Text.isBoundary before s then
        (Text.after? "export".toList s).bind (Text.afterBlanks? (m (some ' '))) else none).or
      (m before s) := by
  funext before s
  exact match_eq_or _ _

theorem recognises_headOf? (hname : Text.isIdent name = true) :
    Recognises (Interface.headOf? name) fun before s => ∃ rest, IsHead before s name rest :=
  fun _ _ => Option.isSome_iff_exists.trans (exists_congr fun _ => headOf?_eq_some_iff hname)

theorem recognises_interface (hname : Text.isIdent name = true) :
    Recognises (exported? (Interface.headOf? name)) (InterfacePlace name) := by
  rw [exported?_eq]
  refine recognises_exported (recognises_headOf? hname) (recognises_headOf? hname) ?_
  rintro c s hc ⟨rest, hrest⟩
  obtain rfl := Option.some.inj hrest.keyword_then_name.1
  cases hc

/-! ## Definitions -/

/-- The name of a definition, up to a word boundary. -/
def nameEnd? (component : Text) : Option Char → Text → Option Text := fun _ s => do
  let rest ← Text.after? component s
  if Text.isBoundary (some (component.getLastD ' ')) rest then return rest else none

theorem recognises_nameEnd (hname : Text.isIdent component = true) :
    Recognises (nameEnd? component) (NamePlace component) := by
  intro before s
  have hlast : some (component.getLastD ' ') = component.getLast? := by
    obtain ⟨n, name, rfl⟩ := List.exists_cons_of_ne_nil (l := component) (by
      rintro rfl
      cases hname)
    rw [List.getLastD_eq_getLast?, List.getLast?_cons]
    rfl
  have hread : nameEnd? component before s = (Text.after? component s).bind fun rest =>
      if Text.isBoundary component.getLast? rest then some rest else none := by
    rw [← hlast]
    rfl
  rw [hread, Option.isSome_iff_exists, NamePlace]
  simp only [Option.bind_eq_some_iff, Text.after?_eq_some_iff, Option.ite_none_right_eq_some,
    Option.some.injEq]
  constructor
  · rintro ⟨_, rest, hs, hboundary, -⟩
    exact ⟨rest, hs, hboundary⟩
  · rintro ⟨rest, hs, hboundary⟩
    exact ⟨rest, rest, hs, hboundary, rfl⟩

theorem not_isBlank_of_namePlace {c : Char} (hname : Text.isIdent component = true)
    (hc : Text.isBlank c = true) : ¬ NamePlace component before (c :: s) := by
  rintro ⟨rest, hs, -⟩
  exact ne_append_of_isBlank hname hc _ _ hs

theorem recognises_named (hname : Text.isIdent component = true) :
    Recognises (namedDefinition? component) (NamedPlace component) := by
  intro before s
  have hfollows := isSome_afterWord_iff (recognises_nameEnd hname)
    fun c s hc => not_isBlank_of_namePlace hname hc
  have hread : namedDefinition? component before s = if Text.isBoundary before s then
      ((Text.after? "function".toList s).or (Text.after? "const".toList s)).bind
        (Text.afterBlanks? (nameEnd? component (some ' '))) else none := by
    rw [namedDefinition?]
    cases Text.after? "function".toList s <;> rfl
  rw [hread, NamedPlace, ← hfollows, ← hfollows]
  by_cases hboundary : Text.isBoundary before s = true
  · rw [if_pos hboundary, and_iff_right hboundary]
    cases hfunction : Text.after? "function".toList s with
    | none => simp
    | some rest =>
      -- the other word starts with another letter
      have hconst : Text.after? "const".toList s = none := by
        rw [Text.after?_eq_some_iff.1 hfunction]
        rfl
      rw [hconst, Option.some_or]
      simp
  · rw [if_neg hboundary]
    exact iff_of_false Bool.false_ne_true fun h => hboundary h.1

theorem recognises_definition (hname : Text.isIdent component = true) :
    Recognises (exportedDefinition? component) (DefinitionPlace component) := by
  have hnamed := recognises_named hname
  have hblank : ∀ c s, Text.isBlank c = true → ¬ NamedPlace component (some ' ') (c :: s) := by
    rintro c s hc ⟨-, h | h⟩
    · exact not_follows_of_isBlank (by decide) hc h
    · exact not_follows_of_isBlank (by decide) hc h
  have hdefault : Recognises (fun before s => ((Text.after? "default".toList s).bind
        (Text.afterBlanks? (namedDefinition? component (some ' ')))).or
      (namedDefinition? component before s)) fun before s =>
        Follows "default".toList (NamedPlace component) s ∨ NamedPlace component before s := by
    intro before s
    rw [Option.isSome_or, Bool.or_eq_true, isSome_afterWord_iff hnamed hblank, hnamed before s]
  have hread : exportedDefinition? component = fun before s =>
      (if Text.isBoundary before s then (Text.after? "export".toList s).bind
        (Text.afterBlanks? fun s => ((Text.after? "default".toList s).bind
            (Text.afterBlanks? (namedDefinition? component (some ' ')))).or
          (namedDefinition? component (some ' ') s)) else none).or
      (namedDefinition? component before s) := by
    funext before s
    refine (match_eq_or _ _).trans ?_
    congr 3
    exact congrArg Text.afterBlanks? (funext fun s => match_eq_or _ _)
  rw [hread]
  refine recognises_exported hdefault hnamed ?_
  rintro c s hc (h | h)
  · exact not_follows_of_isBlank (by decide) hc h
  · exact hblank c s hc h

/-! ## Blocks -/

/-- A block above the first place of its kind: it starts with `/**` and ends with `*/`, and only
white space stands between it and the place. -/
def Above (place : Place) (content body : Text) : Prop :=
  ∃ pre lead blanks, IsFirst place content pre ∧ blanks.all Text.isBlank = true ∧
    pre = lead ++ (['/', '*', '*'] ++ (body ++ (['*', '/'] ++ blanks)))

/-- The block is a comment: it ends where it is first closed. -/
def IsComment (body : Text) : Prop := ¬ ['*', '/'] <:+: '*' :: body

/-- Nothing starts a block in the block. -/
def IsInnermost (body : Text) : Prop := ¬ ['/', '*', '*'] <:+: body

/-- A line that can describe something. -/
def IsText (line : Text) : Prop := line ≠ [] ∧ line.head? ≠ some '@'

/-- The first line with text, without its stars. -/
def IsFirstLine (body d : Text) : Prop :=
  IsText d ∧ ∃ before after, (Text.pieces (· = '\n') body).map commentLine = before ++ d :: after ∧
    ∀ line ∈ before, ¬ IsText line

theorem isText_iff {line : Text} :
    (!line.isEmpty && !Text.startsWith ['@'] line) = true ↔ IsText line := by
  cases line with
  | nil => simp [IsText]
  | cons c line =>
    by_cases hc : '@' = c
    · simp [IsText, Text.startsWith, Text.after?, ← hc]
    · simp [IsText, Text.startsWith, Text.after?, hc, Ne.symm hc]

theorem before?_closer_iff {a : Text} : Text.before? ['*', '/'] (Text.trimEnd s) = some a ↔
    ∃ blanks, blanks.all Text.isBlank = true ∧ s = a ++ (['*', '/'] ++ blanks) := by
  rw [Text.before?_eq_some_iff]
  constructor
  · intro h
    obtain ⟨blanks, hblanks, hs⟩ := Text.exists_trimEnd_append_blanks s
    exact ⟨blanks, hblanks, by rw [hs, h, List.append_assoc]⟩
  · rintro ⟨blanks, hblanks, rfl⟩
    have hlast : (a ++ ['*', '/']).getLast?.any Text.isBlank = false := by
      rw [List.getLast?_append]
      rfl
    rw [← List.append_assoc, Text.trimEnd_append hblanks hlast]

theorem cutLast?_opener_iff {a b : Text} : Text.cutLast? ['/', '*', '*'] s = some (a, b) ↔
    s = a ++ (['/', '*', '*'] ++ b) ∧ IsInnermost b := by
  have htail : ['/', '*', '*'] <:+: (['/', '*', '*'] ++ b).tail ↔ ['/', '*', '*'] <:+: b :=
    (Text.infix_cons_iff_of_head? (by simp) (by decide)).trans
      (Text.infix_cons_iff_of_head? (by simp) (by decide))
  rw [Text.cutLast?_eq_some_iff (by simp), htail, List.append_assoc, IsInnermost]

theorem find?_isText_iff {lines : List Text} :
    (lines.find? fun line => !line.isEmpty && !Text.startsWith ['@'] line) = some d ↔
      IsText d ∧ ∃ before after, lines = before ++ d :: after ∧ ∀ line ∈ before, ¬ IsText line := by
  simp only [List.find?_eq_some_iff_append, Bool.not_eq_true', ← isText_iff, Bool.not_eq_true]

/-- The reader of descriptions reads the innermost block at the end. -/
theorem docCommentAtEnd?_eq_some_iff : docCommentAtEnd? s = some d ↔
    ∃ lead body blanks, blanks.all Text.isBlank = true ∧
      s = lead ++ (['/', '*', '*'] ++ (body ++ (['*', '/'] ++ blanks))) ∧ IsInnermost body ∧
      IsFirstLine body d := by
  have hread : docCommentAtEnd? s = (Text.before? ['*', '/'] (Text.trimEnd s)).bind fun t =>
      (Text.cutLast? ['/', '*', '*'] t).bind fun found =>
        ((Text.pieces (· = '\n') found.2).map commentLine).find? fun line =>
          !line.isEmpty && !Text.startsWith ['@'] line := rfl
  rw [hread]
  simp only [Option.bind_eq_some_iff, Prod.exists, before?_closer_iff, cutLast?_opener_iff,
    find?_isText_iff]
  constructor
  · rintro ⟨_, ⟨blanks, hblanks, rfl⟩, lead, body, ⟨rfl, hinner⟩, hline⟩
    exact ⟨lead, body, blanks, hblanks, by simp, hinner, hline⟩
  · rintro ⟨lead, body, blanks, hblanks, rfl, hinner, hline⟩
    exact ⟨_, ⟨blanks, hblanks, by simp⟩, lead, body, ⟨rfl, hinner⟩, hline⟩

theorem descriptionAbove?_eq_some_iff {m : Option Char → Text → Option Text} {place : Place}
    (h : Recognises m place) : descriptionAbove? m content = some d ↔
      ∃ body, Above place content body ∧ IsInnermost body ∧ IsFirstLine body d := by
  have hread : descriptionAbove? m content =
      (Text.search m none content).bind fun found => docCommentAtEnd? found.1 := rfl
  have hfirst : ∀ pre, (∃ rest, Text.search m none content = some (pre, rest)) ↔
      IsFirst place content pre := fun _ => exists_search_iff h
  rw [hread]
  simp only [Option.bind_eq_some_iff, Prod.exists, docCommentAtEnd?_eq_some_iff]
  constructor
  · rintro ⟨pre, rest, hsearch, lead, body, blanks, hblanks, hpre, hinner, hline⟩
    exact ⟨body, ⟨pre, lead, blanks, (hfirst pre).1 ⟨rest, hsearch⟩, hblanks, hpre⟩, hinner, hline⟩
  · rintro ⟨body, ⟨pre, lead, blanks, hplace, hblanks, hpre⟩, hinner, hline⟩
    obtain ⟨rest, hsearch⟩ := (hfirst pre).2 hplace
    exact ⟨pre, rest, hsearch, lead, body, blanks, hblanks, hpre, hinner, hline⟩

/-! ## Comments -/

theorem IsFirst.eq {place : Place} {pre pre' : Text} (h : IsFirst place content pre)
    (h' : IsFirst place content pre') : pre = pre' := by
  obtain ⟨rest, rfl, hplace, hpass⟩ := h
  obtain ⟨rest', hcontent, hplace', hpass'⟩ := h'
  rcases List.append_eq_append_iff.1 hcontent with ⟨b, rfl, rfl⟩ | ⟨b, rfl, rfl⟩
  · by_contra hne
    exact hpass' pre b rfl (by rintro rfl; simp at hne) hplace
  · by_contra hne
    exact hpass pre' b rfl (by rintro rfl; simp at hne) hplace'

theorem isComment_of_block {lead lead' body body' : Text}
    (h : lead ++ (['/', '*', '*'] ++ body) = lead' ++ (['/', '*', '*'] ++ body'))
    (hinner : IsInnermost body) (hcomment : IsComment body') : IsComment body := by
  rcases List.append_eq_append_iff.1 h with ⟨x, -, hx⟩ | ⟨x, -, hx⟩
  · cases x with
    | nil =>
      obtain rfl := List.append_cancel_left hx
      exact hcomment
    | cons c x =>
      -- the other block would start in this one
      have hin : ['/', '*', '*'] <:+: '*' :: '*' :: body :=
        ⟨x, body', by simpa using (List.cons.inj hx).2.symm⟩
      rw [Text.infix_cons_iff_of_head? (by simp) (by decide),
        Text.infix_cons_iff_of_head? (by simp) (by decide)] at hin
      exact absurd hin hinner
  · rcases x with - | ⟨c, - | ⟨e, x⟩⟩
    · obtain rfl := List.append_cancel_left hx
      exact hcomment
    · exact absurd (List.cons.inj (List.cons.inj hx).2).1 (by decide)
    · have hend : '*' :: body' = x ++ ['/', '*'] ++ '*' :: body := by
        simpa using (List.cons.inj (List.cons.inj hx).2).2
      exact fun hin => hcomment (hend ▸ hin.trans (List.suffix_append _ _).isInfix)

theorem exists_isComment_iff {place : Place} {body : Text} (h : Above place content body)
    (hinner : IsInnermost body) :
    (∃ body', Above place content body' ∧ IsComment body') ↔ IsComment body := by
  refine ⟨?_, fun hcomment => ⟨body, h, hcomment⟩⟩
  rintro ⟨body', ⟨pre', lead', blanks', hplace', hblanks', hpre'⟩, hcomment⟩
  obtain ⟨pre, lead, blanks, hplace, hblanks, hpre⟩ := h
  obtain rfl := hplace.eq hplace'
  have hbefore : Text.before? ['*', '/'] (Text.trimEnd pre) = some (lead ++ (['/', '*', '*'] ++ body)) :=
    before?_closer_iff.2 ⟨blanks, hblanks, by rw [hpre]; simp⟩
  have hbefore' : Text.before? ['*', '/'] (Text.trimEnd pre) =
      some (lead' ++ (['/', '*', '*'] ++ body')) :=
    before?_closer_iff.2 ⟨blanks', hblanks', by rw [hpre']; simp⟩
  exact isComment_of_block (Option.some.inj (hbefore.symm.trans hbefore')) hinner hcomment

/-! ## Descriptions -/

/-- A place has a description above it. -/
def Describes (place : Place) (content d : Text) : Prop :=
  ∃ body, Above place content body ∧ IsInnermost body ∧ IsFirstLine body d

/-- **Where the description comes from, and when it is one of a comment.** It is the first line with
text of the innermost block above the interface, or, if that block has none or is missing, of the one
above the definition. Each of these blocks is a comment, or else no comment that starts with `/**`
ends there. -/
theorem description?_eq_some_iff_above (hname : Text.isIdent component = true)
    (hinterface : Text.isIdent interface = true) :
    (description? content component interface = some d ↔
      Describes (InterfacePlace interface) content d ∨
        (¬ ∃ d', Describes (InterfacePlace interface) content d') ∧
          Describes (DefinitionPlace component) content d) ∧
    ∀ place ∈ [InterfacePlace interface, DefinitionPlace component], ∀ body,
      Above place content body → IsInnermost body →
        ((∃ body', Above place content body' ∧ IsComment body') ↔ IsComment body) := by
  have hinterface : ∀ d, descriptionAbove? (exported? (Interface.headOf? interface)) content = some d ↔
      Describes (InterfacePlace interface) content d := fun d =>
    descriptionAbove?_eq_some_iff (recognises_interface hinterface)
  have hdefinition : descriptionAbove? (exportedDefinition? component) content = some d ↔
      Describes (DefinitionPlace component) content d :=
    descriptionAbove?_eq_some_iff (recognises_definition hname)
  refine ⟨?_, fun place _ body habove hinner => exists_isComment_iff habove hinner⟩
  -- the definition counts only where nothing is found above the interface
  rw [description?]
  cases habove : descriptionAbove? (exported? (Interface.headOf? interface)) content with
  | some d' =>
    have hd' := (hinterface d').1 habove
    rw [← hinterface, habove]
    simp only [Option.some.injEq]
    constructor
    · exact Or.inl
    · rintro (heq | ⟨hnone, -⟩)
      · exact heq
      · exact absurd ⟨d', hd'⟩ hnone
  | none =>
    have hnone : ¬ ∃ d', Describes (InterfacePlace interface) content d' := by
      rintro ⟨d', hd'⟩
      rw [(hinterface d').2 hd'] at habove
      cases habove
    rw [hdefinition]
    constructor
    · exact fun h => Or.inr ⟨hnone, h⟩
    · rintro (h | ⟨-, h⟩)
      · exact absurd ⟨d, h⟩ hnone
      · exact h

theorem description?_eq_some_iff_above_exported :
    (Text.isIdent "Card".toList = true ∧ Text.isIdent "CardProps".toList = true) ∧
      Describes (InterfacePlace "CardProps".toList)
        "/** @public\n * A card.\n */\nexport interface CardProps \x7b\x7d".toList "A card.".toList := by
  have hread : description? "/** @public\n * A card.\n */\nexport interface CardProps \x7b\x7d".toList
      "Card".toList "CardProps".toList = some "A card.".toList := by decide +kernel
  have hnone : ¬ Describes (DefinitionPlace "Card".toList)
      "/** @public\n * A card.\n */\nexport interface CardProps \x7b\x7d".toList "A card.".toList := by
    rw [Describes, ← descriptionAbove?_eq_some_iff (recognises_definition (by decide))]
    decide +kernel
  refine ⟨⟨by decide, by decide⟩, ?_⟩
  rcases (description?_eq_some_iff_above (by decide) (by decide)).1.1 hread with h | ⟨-, h⟩
  · exact h
  · exact absurd h hnone

/-- A comment on something else, and at the end of its line one that describes nothing. -/
def unrelatedSample : Text :=
  "/** Shared. */\nconst GAP = 8; /* px */\ninterface CardProps \x7b title: string \x7d".toList

/-- The text of the earlier comment and the code behind it are taken for a description, and no
comment that starts with `/**` stands above the interface or a definition. -/
theorem description?_not_comment :
    (Text.isIdent "Card".toList = true ∧ Text.isIdent "CardProps".toList = true) ∧
      description? unrelatedSample "Card".toList "CardProps".toList = some "Shared. */".toList ∧
      ∀ place ∈ [InterfacePlace "CardProps".toList, DefinitionPlace "Card".toList], ∀ body,
        Above place unrelatedSample body → ¬ IsComment body := by
  refine ⟨⟨by decide, by decide⟩, by decide +kernel, ?_⟩
  have hblock : Above (InterfacePlace "CardProps".toList) unrelatedSample
      " Shared. */\nconst GAP = 8; /* px ".toList := by
    refine ⟨"/** Shared. */\nconst GAP = 8; /* px */\n".toList, [], ['\n'],
      (exists_search_iff (recognises_interface (by decide))).1 ⟨" title: string \x7d".toList, ?_⟩, rfl,
      by decide⟩
    decide +kernel
  have hdefinition : ∀ pre, ¬ IsFirst (DefinitionPlace "Card".toList) unrelatedSample pre := by
    intro pre
    have hsearch : Text.search (exportedDefinition? "Card".toList) none unrelatedSample = none := by
      decide +kernel
    rw [← exists_search_iff (recognises_definition (by decide)), hsearch]
    simp
  rw [List.forall_mem_cons, List.forall_mem_singleton]
  constructor
  · intro body habove hcomment
    have hblock := (exists_isComment_iff hblock (by unfold IsInnermost; decide +kernel)).1
      ⟨body, habove, hcomment⟩
    revert hblock
    unfold IsComment
    decide +kernel
  · rintro body ⟨pre, -, -, hfirst, -⟩
    exact absurd hfirst (hdefinition pre)

end PropCatalog.Template
