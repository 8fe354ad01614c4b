import PropCatalog.Proofs.Interface.RoundTrip
import PropCatalog.Proofs.Text.Balance

/-!
# Comment lines in an interface

A comment line in the body of an interface is dropped as a piece that starts with two slashes. Its
text has passed two readers before that do not know comments: the search for the closing brace, and
the splitter that counts brackets and cuts at semicolons. A comment is harmless if its braces are
balanced, it leaves the counter at zero, and no piece of it behind a semicolon declares a property.
Harmless comments are transparent, and no other comments are (`find?_comments_iff`).
-/

namespace PropCatalog.Interface

open PropCatalog.Bracket (Nested Balanced Closing close? closing_cons_iff)

variable {a c g indent name rest s : Text} {d e : Nat} {p : Property}

/-! ## Pieces -/

theorem memberPieces_cons (d : Nat) (c : Char) (s : Text) :
    memberPieces d (c :: s) =
      if Bracket.depth d c = 0 && (c = ';' || c = '\n') then
        [] :: memberPieces (Bracket.depth d c) s
      else Text.consFirst c (memberPieces (Bracket.depth d c) s) := (rfl)

theorem exists_memberPieces_append (d : Nat) (a : Text) :
    ∃ ps last, memberPieces d a = ps ++ [last] ∧
      ∀ s q qs, memberPieces (a.foldl Bracket.depth d) s = q :: qs →
        memberPieces d (a ++ s) = ps ++ (last ++ q) :: qs := by
  induction a generalizing d with
  | nil => exact ⟨[], [], rfl, fun s q qs hs => hs⟩
  | cons c a ih =>
    obtain ⟨ps, last, ha, happend⟩ := ih (Bracket.depth d c)
    simp only [List.cons_append, List.foldl_cons, memberPieces_cons, ha]
    split
    · exact ⟨[] :: ps, last, rfl, fun s q qs hs => by rw [happend s q qs hs, List.cons_append]⟩
    · cases ps with
      | nil => exact ⟨[], c :: last, rfl, fun s q qs hs => by rw [happend s q qs hs]; rfl⟩
      | cons p ps => exact ⟨(c :: p) :: ps, last, rfl, fun s q qs hs => by rw [happend s q qs hs]; rfl⟩

theorem memberPieces_of_pos (hd : 0 < d) (hs : Nested (fun _ => True) s) :
    memberPieces d s = [s] := by
  have happend := memberPieces_append hs d (fun hzero => absurd hzero (Nat.pos_iff_ne_zero.1 hd)) []
  rw [List.append_nil] at happend
  rw [happend]
  exact (foldr_consFirst s [] []).trans (by rw [List.append_nil])

/-! ## Properties -/

/-- The properties that are read in a body. -/
def propertiesOf (body : Text) : List Property := (members body).filterMap Property.ofMember?

/-- The property that a piece declares, unless it is a comment. -/
def pieceProperty? (piece : Text) : Option Property :=
  if !(Text.trim piece).isEmpty && !isComment (Text.trim piece) then
    Property.ofMember? (Text.trim piece)
  else none

theorem propertiesOf_eq (body : Text) :
    propertiesOf body = (memberPieces 0 body).filterMap pieceProperty? := by
  rw [propertiesOf, members, List.filterMap_filter, List.filterMap_map]
  rfl

theorem propertiesOf_append_newline (ha : a.foldl Bracket.depth 0 = 0) (s : Text) :
    propertiesOf (a ++ '\n' :: s) = propertiesOf a ++ propertiesOf s := by
  obtain ⟨ps, last, hpieces, happend⟩ := exists_memberPieces_append 0 a
  have hline : memberPieces (a.foldl Bracket.depth 0) ('\n' :: s) = [] :: memberPieces 0 s := by
    rw [ha]
    rfl
  simp only [propertiesOf_eq, happend _ _ _ hline, hpieces, List.append_nil, List.filterMap_append,
    List.filterMap_cons, List.filterMap_nil]
  cases pieceProperty? last <;> simp

theorem propertiesOf_newline (s : Text) : propertiesOf ('\n' :: s) = propertiesOf s :=
  propertiesOf_append_newline (a := []) rfl s

theorem propertiesOf_indent (hindent : IsIndent indent) (s : Text) :
    propertiesOf (indent ++ s) = propertiesOf s := by
  obtain ⟨ps, last, hpieces, -⟩ := exists_memberPieces_append 0 s
  obtain ⟨q, qs, hcons⟩ := List.exists_cons_of_ne_nil (l := memberPieces 0 s) (by simp [hpieces])
  have hpiece : pieceProperty? (indent ++ q) = pieceProperty? q := by
    rw [pieceProperty?, pieceProperty?, Text.trim_blanks_append hindent.all_isBlank]
  rw [propertiesOf_eq, propertiesOf_eq, memberPieces_append (nested_indent hindent) 0 fun _ _ hc => hc,
    hcons, foldr_consFirst, List.filterMap_cons, List.filterMap_cons, hpiece]

/-! ## Lines -/

/-- A line in the body of an interface. -/
inductive Line where
  | member (p : Property)
  /-- A comment with the text behind its two slashes. -/
  | comment (c : Text)

namespace Line

def text (indent : Text) : Line → Text
  | member p => indent ++ (p.line ++ [';'])
  | comment c => indent ++ '/' :: '/' :: c

def isMember : Line → Bool
  | member _ => true
  | comment _ => false

end Line

/-- A member with its semicolons and line breaks in brackets. -/
structure IsMember (p : Property) : Prop where
  name_isIdent : Text.isIdent p.name = true
  type_nested : Nested (fun c => ¬ IsSeparator c) p.type

/-- A comment that is read for itself and declares nothing. -/
structure Harmless (c : Text) : Prop where
  balanced : Balanced '{' '}' c
  foldl_depth : c.foldl Bracket.depth 0 = 0
  propertiesOf_eq : propertiesOf ('/' :: '/' :: c) = []

/-- The body of an interface with members and comments, between its braces. -/
def bodyText (indent : Text) (lines : List Line) : Text :=
  '\n' :: lines.flatMap fun line => line.text indent ++ ['\n']

/-- A declaration with members and comments, up to any text behind it. -/
def declarationText (indent name : Text) (lines : List Line) (rest : Text) : Text :=
  keyword ++ ' ' :: (name ++ ' ' :: '{' :: (bodyText indent lines ++ '}' :: rest))

variable {line : Line} {lines : List Line}

theorem find?_declarationText (hname : Text.isIdent name = true) (indent : Text)
    (lines : List Line) (rest : Text) :
    find? (declarationText indent name lines rest) name =
      properties? (bodyText indent lines ++ '}' :: rest) :=
  find?_declaration hname _

/-- What a line of either kind has to be for the readers. -/
structure Line.Closed (indent : Text) (line : Line) : Prop where
  balanced : Balanced '{' '}' (line.text indent)
  foldl_depth : (line.text indent).foldl Bracket.depth 0 = 0

theorem closed_of_nested {p : Char → Prop} (h : Nested p (line.text indent)) : line.Closed indent :=
  ⟨h.balanced, h.foldl_depth 0⟩

theorem IsMember.closed (hindent : IsIndent indent) (h : IsMember p) :
    (Line.member p).Closed indent := by
  have htrue : ∀ {a : Text}, Nested (fun c => ¬ IsSeparator c) a → Nested (fun _ => True) a :=
    fun ha => ha.mono fun _ _ => trivial
  have hend : Nested (fun _ => True) [';'] := Nested.of_all (by decide)
  exact closed_of_nested ((htrue (nested_indent hindent)).append
    ((htrue (nested_line_of h.name_isIdent h.type_nested)).append hend))

theorem balanced_slashes_iff : Balanced '{' '}' ('/' :: '/' :: c) ↔ Balanced '{' '}' c :=
  (closing_cons_iff (by decide) (by decide)).trans (closing_cons_iff (by decide) (by decide))

theorem Harmless.closed (hindent : IsIndent indent) (h : Harmless c) :
    (Line.comment c).Closed indent := by
  refine ⟨(nested_indent hindent).balanced.append (by decide) (balanced_slashes_iff.2 h.balanced), ?_⟩
  rw [Line.text, List.foldl_append, (nested_indent hindent).foldl_depth]
  exact h.foldl_depth

theorem balanced_bodyText (h : ∀ line ∈ lines, line.Closed indent) :
    Balanced '{' '}' (bodyText indent lines) := by
  have hnewline : Balanced '{' '}' ['\n'] := Bracket.balanced_of_notMem (by decide) (by decide)
  refine Closing.append (a := ['\n']) (by decide) hnewline ?_
  induction lines with
  | nil => exact Bracket.closing_nil_iff.2 rfl
  | cons line lines ih =>
    obtain ⟨hline, hlines⟩ := List.forall_mem_cons.1 h
    exact (hline.balanced.append (by decide) hnewline).append (by decide) (ih hlines)

theorem propertiesOf_bodyText (h : ∀ line ∈ lines, line.Closed indent) :
    propertiesOf (bodyText indent lines) = lines.flatMap fun line => propertiesOf (line.text indent) := by
  rw [bodyText, propertiesOf_newline]
  induction lines with
  | nil => rfl
  | cons line lines ih =>
    obtain ⟨hline, hlines⟩ := List.forall_mem_cons.1 h
    rw [List.flatMap_cons, List.flatMap_cons, List.append_assoc, List.singleton_append,
      propertiesOf_append_newline hline.foldl_depth, ih hlines]

theorem properties?_bodyText (h : ∀ line ∈ lines, line.Closed indent) (rest : Text) :
    properties? (bodyText indent lines ++ '}' :: rest) =
      some (lines.flatMap fun line => propertiesOf (line.text indent)) := by
  rw [properties?, Bracket.body?_append_iff.2 (balanced_bodyText h), Option.map_some,
    ← propertiesOf_bodyText h]
  rfl

theorem flatMap_filter_isMember {f : Line → List Property}
    (h : ∀ c, Line.comment c ∈ lines → f (.comment c) = []) :
    (lines.filter Line.isMember).flatMap f = lines.flatMap f := by
  induction lines with
  | nil => rfl
  | cons line lines ih =>
    have hlines := ih fun c hc => h c (List.mem_cons_of_mem line hc)
    cases line with
    | member p =>
      rw [List.filter_cons_of_pos rfl, List.flatMap_cons, List.flatMap_cons, hlines]
    | comment c =>
      rw [List.filter_cons_of_neg (by simp [Line.isMember]), List.flatMap_cons, h c (by simp), hlines,
        List.nil_append]

/-- Harmless comments are transparent. -/
theorem exists_find?_of_harmless (hindent : IsIndent indent) (hname : Text.isIdent name = true)
    (hmembers : ∀ p, .member p ∈ lines → IsMember p)
    (hcomments : ∀ c, .comment c ∈ lines → Harmless c) (rest : Text) :
    ∃ ps, find? (declarationText indent name lines rest) name = some ps ∧
      find? (declarationText indent name (lines.filter Line.isMember) rest) name = some ps := by
  have hclosed : ∀ line ∈ lines, line.Closed indent := fun line hline => by
    cases line with
    | member p => exact (hmembers p hline).closed hindent
    | comment c => exact (hcomments c hline).closed hindent
  have hfilter : ∀ line ∈ lines.filter Line.isMember, line.Closed indent := fun line hline =>
    hclosed line (List.mem_of_mem_filter hline)
  refine ⟨lines.flatMap fun line => propertiesOf (line.text indent), ?_, ?_⟩
  · rw [find?_declarationText hname, properties?_bodyText hclosed]
  · rw [find?_declarationText hname, properties?_bodyText hfilter, flatMap_filter_isMember]
    intro c hc
    rw [Line.text, propertiesOf_indent hindent, (hcomments c hc).propertiesOf_eq]

/-! ## Other comments -/

/-- Two members that show what a comment before them does. -/
def probes : List Property := [⟨['a'], false, "string".toList⟩, ⟨['b'], false, "string".toList⟩]

/-- The lines of the probes. -/
def probesText : Text := '\n' :: probes.flatMap fun p => p.line ++ [';', '\n']

theorem harmless_of_reads (hnone : properties? ('\n' :: '/' :: '/' :: c ++ ['\n', '}']) = some [])
    (hprobes : properties? ('\n' :: '/' :: '/' :: c ++ (probesText ++ ['}'])) = some probes) :
    Harmless c := by
  have hreads : ∀ s, properties? ('\n' :: '/' :: '/' :: c ++ s) =
      (close? '{' '}' 0 ('\n' :: '/' :: '/' :: c ++ s)).map fun found => propertiesOf found.1 :=
    fun s => rfl
  rw [hreads] at hnone hprobes
  cases hclose : close? '{' '}' 0 ('\n' :: '/' :: '/' :: c) with
  | some found =>
    -- the body ends in the comment, with or without members behind it
    obtain ⟨x, y⟩ := found
    have hsome := Bracket.close?_append_of_eq_some (by decide) hclose
    rw [hsome, Option.map_some] at hnone hprobes
    have hsame := (Option.some.inj hnone).symm.trans (Option.some.inj hprobes)
    cases hsame
  | none =>
    obtain ⟨d, happend, hclosing⟩ := Bracket.close?_append_of_eq_none (by decide) hclose
    rw [happend, Option.map_map] at hnone hprobes
    obtain rfl : d = 0 := by
      cases d with
      | zero => rfl
      | succ d =>
        -- a brace that the comment leaves open hides the end of the body
        have hopen : close? '{' '}' (d + 1) ['\n', '}'] = none := rfl
        rw [hopen] at hnone
        cases hnone
    have hbalanced : Balanced '{' '}' c :=
      balanced_slashes_iff.1 ((closing_cons_iff (by decide) (by decide)).1 (hclosing rfl))
    have hbody : close? '{' '}' 0 ['\n', '}'] = some (['\n'], []) := rfl
    have hbody' : close? '{' '}' 0 (probesText ++ ['}']) = some (probesText, []) := by decide +kernel
    rw [hbody, Option.map_some] at hnone
    rw [hbody', Option.map_some] at hprobes
    have hnone : propertiesOf ('/' :: '/' :: c ++ ['\n']) = [] :=
      (propertiesOf_newline _).symm.trans (Option.some.inj hnone)
    have hprobes : propertiesOf ('/' :: '/' :: c ++ probesText) = probes :=
      (propertiesOf_newline _).symm.trans (Option.some.inj hprobes)
    have hfold : ('/' :: '/' :: c).foldl Bracket.depth 0 = c.foldl Bracket.depth 0 := rfl
    rcases Nat.eq_zero_or_pos (c.foldl Bracket.depth 0) with hzero | hpos
    · rw [propertiesOf_append_newline (hfold.trans hzero)] at hnone
      exact ⟨hbalanced, hzero, (List.append_eq_nil_iff.1 hnone).1⟩
    · -- what follows is one piece with the end of the comment
      obtain ⟨ps, last, -, happend⟩ := exists_memberPieces_append 0 ('/' :: '/' :: c)
      have hpiece : ∀ s, Nested (fun _ => True) s →
          propertiesOf ('/' :: '/' :: c ++ s) =
            ps.filterMap pieceProperty? ++ (pieceProperty? (last ++ s)).toList := fun s hs => by
        rw [propertiesOf_eq, happend s s [] (memberPieces_of_pos (hfold ▸ hpos) hs),
          List.filterMap_append, List.filterMap_cons]
        cases pieceProperty? (last ++ s) <;> rfl
      rw [hpiece _ (Nested.of_all (by decide)), List.append_eq_nil_iff] at hnone
      rw [hpiece _ (Nested.of_all (by decide)), hnone.1, List.nil_append] at hprobes
      have hlength := congrArg List.length hprobes
      have hle : (pieceProperty? (last ++ probesText)).toList.length ≤ 1 := by
        cases pieceProperty? (last ++ probesText) <;> simp
      rw [hlength] at hle
      exact absurd hle (by decide)

/-- **Comments are transparent exactly if they are harmless.** For every set of comments: every
declaration that has no others is read as it is without them, if and only if the braces of each
comment are balanced, none leaves the count of brackets above zero, and no piece behind a semicolon
in one of them declares a property. -/
theorem find?_comments_iff (P : Text → Prop) :
    (∀ (indent name : Text) (lines : List Line) (rest : Text), IsIndent indent →
      Text.isIdent name = true → (∀ p, .member p ∈ lines → IsMember p) →
      (∀ c, .comment c ∈ lines → P c) →
      ∃ ps, find? (declarationText indent name lines rest) name = some ps ∧
        find? (declarationText indent name (lines.filter Line.isMember) rest) name = some ps) ↔
      ∀ c, P c → Harmless c := by
  constructor
  · -- two declarations tell: one without members, and one with two
    intro htransparent c hc
    have hindent : IsIndent [] := fun c hc => by cases hc
    have hreads : ∀ members : List Property, (∀ p ∈ members, IsMember p) →
        properties? (bodyText [] (.comment c :: members.map .member) ++ ['}']) =
          find? (declarationText [] ['N'] (members.map .member) []) ['N'] := by
      intro members hmembers
      have hlines : ∀ lines : List Property, (lines.map Line.member).filter Line.isMember =
          lines.map .member := fun lines => List.filter_eq_self.2 (by simp [Line.isMember])
      obtain ⟨ps, hps, hps'⟩ := htransparent [] ['N'] (.comment c :: members.map .member) [] hindent
        (by decide) (by simpa using hmembers) (by simpa using hc)
      rw [List.filter_cons_of_neg (by simp [Line.isMember]), hlines] at hps'
      rw [hps', ← hps, find?_declarationText (by decide)]
    have hmember : ∀ p ∈ probes, IsMember p := by
      rw [probes, List.forall_mem_cons, List.forall_mem_singleton]
      exact ⟨⟨by decide, Nested.of_all (by decide)⟩, ⟨by decide, Nested.of_all (by decide)⟩⟩
    have hempty : find? (declarationText [] ['N'] [] []) ['N'] = some [] := by decide +kernel
    have htwo : find? (declarationText [] ['N'] (probes.map .member) []) ['N'] = some probes := by
      decide +kernel
    have hnone := (hreads [] (by simp)).trans hempty
    have hprobes := (hreads probes hmember).trans htwo
    have htext : ∀ members : List Property,
        bodyText [] (.comment c :: members.map .member) ++ ['}'] = '\n' :: '/' :: '/' :: c ++
          ('\n' :: (members.flatMap fun p => p.line ++ [';', '\n']) ++ ['}']) := fun members => by
      simp [bodyText, Line.text, List.flatMap_map]
    rw [htext] at hnone hprobes
    exact harmless_of_reads hnone hprobes
  · intro hharmless indent name lines rest hindent hname hmembers hcomments
    exact exists_find?_of_harmless hindent hname hmembers (fun c hc => hharmless c (hcomments c hc))
      rest

/-- Two members with a comment between them. -/
def commentedSample (c : Text) : List Line :=
  [.member ⟨"title".toList, false, "string".toList⟩, .comment c,
    .member ⟨"badge".toList, false, "string".toList⟩]

/-- One comment adds a member, and another loses one. -/
theorem find?_comments_not_transparent :
    (IsIndent "  ".toList ∧ Text.isIdent "CardProps".toList = true ∧
        ∀ c p, .member p ∈ commentedSample c → IsMember p) ∧
      declarationText "  ".toList "CardProps".toList (commentedSample " old; size: number".toList) [] =
        "interface CardProps \x7b\n  title: string;\n  // old; size: number\n".toList ++
          "  badge: string;\n\x7d".toList ∧
      (find? (declarationText "  ".toList "CardProps".toList
          ((commentedSample []).filter Line.isMember) []) "CardProps".toList =
        some [⟨"title".toList, false, "string".toList⟩, ⟨"badge".toList, false, "string".toList⟩]) ∧
      (find? (declarationText "  ".toList "CardProps".toList
          (commentedSample " old; size: number".toList) []) "CardProps".toList =
        some [⟨"title".toList, false, "string".toList⟩, ⟨"size".toList, false, "number".toList⟩,
          ⟨"badge".toList, false, "string".toList⟩]) ∧
      find? (declarationText "  ".toList "CardProps".toList
          (commentedSample " (optional".toList) []) "CardProps".toList =
        some [⟨"title".toList, false, "string".toList⟩] := by
  have hmembers : ∀ c p, .member p ∈ commentedSample c → IsMember p := by
    intro c p hp
    simp only [commentedSample, List.mem_cons, Line.member.injEq, reduceCtorEq, List.not_mem_nil,
      false_or, or_false] at hp
    rcases hp with rfl | rfl <;> exact ⟨by decide, Nested.of_all (by decide)⟩
  have hindent : IsIndent "  ".toList := by
    simp [IsIndent, Text.isBlank]
  exact ⟨⟨hindent, by decide, hmembers⟩, by decide +kernel, by decide +kernel, by decide +kernel,
    by decide +kernel⟩

end PropCatalog.Interface
