import PropCatalog.Proofs.Interface.Property
import Mathlib.Data.List.Forall2

/-!
# Reading back written declarations

A source text is written as lines: declarations of interfaces, each property on a line of its own,
and between them lines of any kind without the word `interface`. Reading gives the declared
interfaces back, with all their properties in order (`ofSource_sourceText`).

The parts of a declaration are told apart by what they cannot hold: the brackets of the types are
nested, so the body ends at its own brace and falls into the written lines; and the word `interface`
is followed by a blank and a name only where a declaration starts, because a type does not hold the
word and after the name of a property comes a question mark or a colon.
-/

namespace PropCatalog.Interface

open PropCatalog.Bracket (Nested)

variable {indent s : Text} {p : Property} {members : List Property}

/-! ## The body of a declaration -/

/-- The lines of properties, each with blanks before it and a semicolon after it. -/
def bodyLines (indent : Text) (members : List Property) : Text :=
  members.flatMap fun p => indent ++ (p.line ++ [';', '\n'])

theorem bodyLines_cons (indent : Text) (p : Property) (members : List Property) :
    bodyLines indent (p :: members) =
      indent ++ (p.line ++ [';', '\n']) ++ bodyLines indent members :=
  List.flatMap_cons

/-- Blanks on one line. -/
def IsIndent (indent : Text) : Prop :=
  ∀ c ∈ indent, Text.isBlank c = true ∧ c ≠ '\n'

theorem IsIndent.all_isBlank (h : IsIndent indent) : indent.all Text.isBlank = true :=
  List.all_eq_true.2 fun c hc => (h c hc).1

theorem nested_of_class {p : Char → Bool} {a : Text}
    (hp : ['{', '[', '(', '}', ']', ')', ';', '\n'].all fun d => !p d) (h : ∀ c ∈ a, p c = true) :
    Nested (fun c => ¬ IsSeparator c) a := by
  refine Nested.of_forall fun c hc => ?_
  have hne : ∀ d ∈ ['{', '[', '(', '}', ']', ')', ';', '\n'], c ≠ d := by
    rintro d hd rfl
    simpa [h c hc] using List.all_eq_true.1 hp c hd
  simp only [List.forall_mem_cons] at hne
  simp [Bracket.isOpener, Bracket.isCloser, IsSeparator, hne]

theorem nested_of_isIdent {name : Text} (h : Text.isIdent name = true) :
    Nested (fun c => ¬ IsSeparator c) name :=
  nested_of_class (p := Text.isIdentRest) (by decide +kernel) fun _ hc =>
    Text.isIdentRest_of_mem h hc

theorem nested_indent (h : IsIndent indent) : Nested (fun c => ¬ IsSeparator c) indent :=
  nested_of_class (p := fun c => Text.isBlank c && c ≠ '\n') (by decide +kernel) fun c hc => by
    simpa using h c hc

theorem nested_line_of (hname : Text.isIdent p.name = true)
    (htype : Nested (fun c => ¬ IsSeparator c) p.type) :
    Nested (fun c => ¬ IsSeparator c) p.line := by
  have hmark : Nested (fun c => ¬ IsSeparator c) (if p.optional then ['?'] else []) := by
    cases p.optional with
    | true => exact Nested.of_all (by decide)
    | false => exact .nil
  have hcolon : Nested (fun c => ¬ IsSeparator c) [':', ' '] := Nested.of_all (by decide)
  exact (nested_of_isIdent hname).append (hmark.append (hcolon.append htype))

theorem nested_line (h : p.WellFormed) : Nested (fun c => ¬ IsSeparator c) p.line :=
  nested_line_of h.name_isIdent h.type_nested

theorem nested_bodyLines (hindent : IsIndent indent) (h : ∀ p ∈ members, p.WellFormed) :
    Nested (fun _ => True) ('\n' :: bodyLines indent members) := by
  have htrue : ∀ {a : Text}, Nested (fun c => ¬ IsSeparator c) a → Nested (fun _ => True) a :=
    fun ha => ha.mono fun _ _ => trivial
  have hend : Nested (fun _ => True) [';', '\n'] := Nested.of_all (by decide)
  refine .plain rfl rfl trivial ?_
  induction members with
  | nil => exact .nil
  | cons p members ih =>
    rw [bodyLines_cons]
    refine Nested.append ?_ (ih fun q hq => h q (List.mem_cons_of_mem p hq))
    exact (htrue (nested_indent hindent)).append ((htrue (nested_line (h p (by simp)))).append hend)

theorem memberPieces_line (hindent : IsIndent indent) (h : p.WellFormed) (s : Text) :
    memberPieces 0 (indent ++ (p.line ++ [';', '\n']) ++ s) =
      (indent ++ p.line) :: [] :: memberPieces 0 s := by
  have hnested := (nested_indent hindent).append (nested_line h)
  have hend : memberPieces 0 (';' :: '\n' :: s) = [] :: [] :: memberPieces 0 s := rfl
  have hassoc : indent ++ (p.line ++ [';', '\n']) ++ s = indent ++ p.line ++ ';' :: '\n' :: s := by
    simp
  rw [hassoc, memberPieces_append hnested 0 (fun _ _ hc => hc), hend, foldr_consFirst,
    List.append_nil]

/-- The members of a written body are the lines of its properties. -/
theorem members_bodyLines (hindent : IsIndent indent) (h : ∀ p ∈ members, p.WellFormed) :
    Interface.members ('\n' :: bodyLines indent members) = members.map Property.line := by
  have hstart : memberPieces 0 ('\n' :: bodyLines indent members) =
      [] :: memberPieces 0 (bodyLines indent members) := rfl
  rw [Interface.members, hstart]
  clear hstart
  induction members with
  | nil => rfl
  | cons p members ih =>
    have hp := h p (by simp)
    obtain ⟨hhead, hlast⟩ := hp.line_not_blank
    have htrim := Text.trim_append hindent.all_isBlank hhead hlast
    have hfull : p.line.isEmpty = false := by
      obtain ⟨c, rest, -, hline⟩ := p.exists_line_eq
      simp [hline]
    rw [bodyLines_cons, memberPieces_line hindent hp]
    have hrest := ih fun q hq => h q (List.mem_cons_of_mem p hq)
    simp only [List.map_cons, List.filter_cons, htrim, hfull, hp.isComment_line] at hrest ⊢
    simpa [Text.trim, Text.trimStart, Text.trimEnd] using hrest

theorem properties?_bodyLines (hindent : IsIndent indent) (h : ∀ p ∈ members, p.WellFormed)
    (s : Text) : properties? ('\n' :: bodyLines indent members ++ '}' :: s) = some members := by
  rw [properties?, Bracket.body?_append (nested_bodyLines hindent h), Option.map_some]
  refine congrArg some ?_
  dsimp only
  rw [members_bodyLines hindent h, List.filterMap_map]
  have hread : ∀ p ∈ members, (Property.ofMember? ∘ Property.line) p = some p :=
    fun p hp => (h p hp).ofMember?_line
  rw [List.filterMap_congr hread]
  exact List.filterMap_some

/-! ## No declaration starts inside a body -/

theorem silent_line (hindent : IsIndent indent) (h : p.WellFormed) (s : Text) :
    Silent (indent ++ (p.line ++ [';', '\n'])) s := by
  have hblank : 'i' ∉ indent := fun hi => by
    obtain ⟨hi, -⟩ := hindent 'i' hi
    cases hi
  have hmark : 'i' ∉ (if p.optional then ['?'] else []) ++ [':', ' '] := by
    cases p.optional <;> decide
  have htype : Silent p.type ([';', '\n'] ++ s) :=
    silent_of_not_infix h.type_silent fun c hc => by
      obtain rfl := Option.some.inj hc
      decide
  have hname : Silent p.name ((if p.optional then ['?'] else []) ++ [':', ' '] ++
      (p.type ++ ([';', '\n'] ++ s))) := by
    have hnext : ∀ t : Text, Silent p.name ('?' :: t) ∧ Silent p.name (':' :: t) := fun t =>
      ⟨silent_of_word (fun c => Text.isIdentRest_of_mem h.name_isIdent) rfl rfl,
        silent_of_word (fun c => Text.isIdentRest_of_mem h.name_isIdent) rfl rfl⟩
    cases p.optional with
    | true => exact (hnext _).1
    | false => exact (hnext _).2
  have hline : indent ++ (p.line ++ [';', '\n']) = indent ++ (p.name ++
      ((if p.optional then ['?'] else []) ++ [':', ' '] ++ (p.type ++ [';', '\n']))) := by
    simp [Property.line]
  rw [hline]
  refine (silent_of_notMem hblank _).append (Silent.append ?_
    ((silent_of_notMem hmark _).append (htype.append (silent_of_notMem (by decide) s))))
  simpa using hname

theorem silent_bodyLines (hindent : IsIndent indent) (h : ∀ p ∈ members, p.WellFormed) (s : Text) :
    Silent (bodyLines indent members) s := by
  induction members with
  | nil => exact Silent.nil s
  | cons p members ih =>
    rw [bodyLines_cons]
    exact (silent_line hindent (h p (by simp)) _).append
      (ih fun q hq => h q (List.mem_cons_of_mem p hq))

/-! ## Source texts -/

/-- A declaration of an interface. -/
structure Declaration where
  exported : Bool
  name : Text
  members : List Property

namespace Declaration

/-- The written declaration, from the start of its first line to its closing brace. -/
def text (indent : Text) (d : Declaration) : Text :=
  (if d.exported then "export ".toList else []) ++
    (keyword ++ ' ' :: (d.name ++ ' ' :: '{' :: ('\n' :: bodyLines indent d.members ++ ['}'])))

/-- A declaration that can be written. -/
structure WellFormed (d : Declaration) : Prop where
  name_isIdent : Text.isIdent d.name = true
  members_wellFormed : ∀ p ∈ d.members, p.WellFormed

end Declaration

/-- What stands on the lines of a source text. -/
inductive Piece where
  /-- A line that is no part of a declaration. -/
  | filler (line : Text)
  | declaration (d : Declaration)

namespace Piece

def text (indent : Text) : Piece → Text
  | filler line => line
  | declaration d => d.text indent

def WellFormed : Piece → Prop
  | filler line => ¬ keyword <:+: line
  | declaration d => d.WellFormed

def declaration? : Piece → Option Declaration
  | filler _ => none
  | declaration d => some d

end Piece

/-- The source text of pieces on lines of their own. -/
def sourceText (indent : Text) (pieces : List Piece) : Text :=
  Text.join ['\n'] (pieces.map (Piece.text indent))

/-- The declarations of a source text. -/
def declared (pieces : List Piece) : List Declaration :=
  pieces.filterMap Piece.declaration?

/-- A head that was found is the one of a declaration, and its body is read as the members. -/
def Reads (found : Text × Text) (d : Declaration) : Prop :=
  found.1 = d.name ∧ properties? found.2 = some d.members

theorem declarations_declaration {d : Declaration} {before : Option Char}
    (hindent : IsIndent indent) (h : d.WellFormed) (hbefore : before.any Text.isWord = false)
    (s : Text) : ∃ found, Reads found d ∧
      declarations before (d.text indent ++ s) = found :: declarations (some '}') s := by
  have hbody : Silent ('\n' :: bodyLines indent d.members ++ ['}']) s :=
    Silent.append (p := '\n' :: bodyLines indent d.members)
      (Silent.append (p := ['\n']) (silent_of_notMem (by decide) _)
        (silent_bodyLines hindent h.members_wellFormed _))
      (silent_of_notMem (by decide) s)
  have hhead : ∀ {before : Option Char}, before.any Text.isWord = false →
      IsHead before (keyword ++ ' ' :: (d.name ++ ' ' :: '{' ::
        ('\n' :: bodyLines indent d.members ++ ['}'] ++ s))) d.name
        ('\n' :: bodyLines indent d.members ++ ['}'] ++ s) := by
    intro before hbefore
    refine ⟨?_, h.name_isIdent, [' '], [' '], by simp, rfl, rfl, rfl⟩
    rw [Text.isBoundary, hbefore]
    rfl
  refine ⟨(d.name, '\n' :: bodyLines indent d.members ++ ['}'] ++ s), ⟨rfl, ?_⟩, ?_⟩
  · rw [List.append_assoc]
    exact properties?_bodyLines hindent h.members_wellFormed s
  · have hlast : ('\n' :: bodyLines indent d.members ++ ['}']).getLast?.or (some '{') =
        some '}' := by
      rw [List.getLast?_concat]
      rfl
    -- the body is passed over, and the next declaration is looked for behind its brace
    rw [← hlast, ← declarations_append hbody]
    cases hexported : d.exported with
    | false =>
      rw [← declarations_of_isHead (hhead hbefore)]
      simp [Declaration.text, hexported]
    | true =>
      have hexport : Silent "export ".toList (keyword ++ ' ' :: (d.name ++ ' ' :: '{' ::
          ('\n' :: bodyLines indent d.members ++ ['}'] ++ s))) := silent_of_notMem (by decide) _
      have hspace : ("export ".toList.getLast?.or before).any Text.isWord = false := rfl
      rw [← declarations_of_isHead (hhead hspace), ← declarations_append hexport]
      simp [Declaration.text, hexported]

theorem declarations_piece {piece : Piece} {before : Option Char} (hindent : IsIndent indent)
    (h : piece.WellFormed) (hbefore : before.any Text.isWord = false)
    (hs : ∀ c ∈ s.head?, c = '\n') : ∃ found before',
      declarations before (piece.text indent ++ s) = found ++ declarations before' s ∧
        List.Forall₂ Reads found piece.declaration?.toList := by
  cases piece with
  | filler line =>
    have hsilent : Silent line s := silent_of_not_infix h fun c hc => by
      rw [hs c hc]
      decide
    exact ⟨[], line.getLast?.or before, declarations_append hsilent before, .nil⟩
  | declaration d =>
    obtain ⟨found, hreads, hfound⟩ := declarations_declaration hindent h hbefore s
    exact ⟨[found], some '}', hfound, .cons hreads .nil⟩

theorem declarations_nil (before : Option Char) : declarations before [] = [] := by
  rw [declarations]

/-- All declarations of a source text are found, in order, and no others. -/
theorem declarations_sourceText {pieces : List Piece} {before : Option Char}
    (hindent : IsIndent indent) (h : ∀ piece ∈ pieces, piece.WellFormed)
    (hbefore : before.any Text.isWord = false) :
    List.Forall₂ Reads (declarations before (sourceText indent pieces)) (declared pieces) := by
  -- the last piece has no line break behind it, so it is a case of its own
  induction pieces generalizing before with
  | nil =>
    rw [show sourceText indent [] = [] from rfl, declarations_nil]
    exact .nil
  | cons piece pieces ih =>
    have hpiece := h piece (by simp)
    have hdeclared : declared (piece :: pieces) =
        piece.declaration?.toList ++ declared pieces := by
      rw [declared, List.filterMap_cons]
      cases piece.declaration? <;> rfl
    cases pieces with
    | nil =>
      obtain ⟨found, before', hfound, hreads⟩ :=
        declarations_piece (s := []) hindent hpiece hbefore (by simp)
      rw [declarations_nil, List.append_nil, List.append_nil] at hfound
      have htext : sourceText indent [piece] = piece.text indent := rfl
      have hlast : declared ([] : List Piece) = [] := rfl
      rw [hdeclared, htext, hfound, hlast, List.append_nil]
      exact hreads
    | cons next pieces =>
      obtain ⟨found, before', hfound, hreads⟩ :=
        declarations_piece (s := '\n' :: sourceText indent (next :: pieces)) hindent hpiece hbefore
          (by simp)
      have hnewline : declarations before' ('\n' :: sourceText indent (next :: pieces)) =
          declarations (some '\n') (sourceText indent (next :: pieces)) :=
        declarations_append (p := ['\n']) (silent_of_notMem (by decide) _) before'
      have htext : sourceText indent (piece :: next :: pieces) =
          piece.text indent ++ '\n' :: sourceText indent (next :: pieces) := by
        simp [sourceText, Text.join]
      rw [hdeclared, htext, hfound, hnewline]
      exact List.rel_append hreads (ih (fun q hq => h q (by simp [hq])) rfl)

/-! ## The table -/

theorem entries_foldl_addFound {content : Text} {names : List Text} {table : Table}
    (hnames : names.Nodup) (hnew : ∀ name ∈ names, table.get? name = none) :
    (names.foldl (Table.addFound content) table).entries =
      table.entries ++ names.filterMap fun name =>
        (find? content name).map fun properties => (name, properties) := by
  induction names generalizing table with
  | nil => simp
  | cons name names ih =>
    obtain ⟨hname, hrest⟩ := List.nodup_cons.1 hnames
    have hfree : table.get? name = none := hnew name (by simp)
    have hstill : ∀ other ∈ names, (table.addFound content name).get? other = none := by
      intro other hother
      have hne : other ≠ name := by
        rintro rfl
        exact hname hother
      rw [Table.get?_addFound, if_neg hne, hnew other (by simp [hother])]
      rfl
    rw [List.foldl_cons, ih hrest hstill, List.filterMap_cons, Table.addFound]
    cases find? content name with
    | none => rfl
    | some properties =>
      simp [Table.insertNew, Table.contains, hfree]

theorem lookup_of_reads {found : List (Text × Text)} {ds : List Declaration}
    (h : List.Forall₂ Reads found ds) (hnames : (ds.map Declaration.name).Nodup) {d : Declaration}
    (hd : d ∈ ds) : (found.lookup d.name).bind properties? = some d.members := by
  induction h with
  | nil => cases hd
  | @cons head first found ds hreads h ih =>
    obtain ⟨name, rest⟩ := head
    obtain ⟨rfl, hmembers⟩ := hreads
    rw [List.map_cons, List.nodup_cons] at hnames
    rw [List.lookup_cons]
    rcases List.mem_cons.1 hd with rfl | hd
    · simpa using hmembers
    · have hne : (d.name == first.name) = false := by
        rw [beq_eq_false_iff_ne]
        intro hsame
        exact hnames.1 (hsame ▸ List.mem_map_of_mem hd)
      rw [hne]
      exact ih hnames.2 hd

theorem names_of_reads {found : List (Text × Text)} {ds : List Declaration}
    (h : List.Forall₂ Reads found ds) : found.map Prod.fst = ds.map Declaration.name := by
  induction h with
  | nil => rfl
  | cons hreads _ ih => rw [List.map_cons, List.map_cons, hreads.1, ih]

/-- **Written declarations are read back.** A source text of declarations with distinct names, and
of other lines before, between and after them, gives the table of exactly these declarations, each
with its members in order. -/
theorem ofSource_sourceText {pieces : List Piece} (hindent : IsIndent indent)
    (h : ∀ piece ∈ pieces, piece.WellFormed)
    (hnames : ((declared pieces).map Declaration.name).Nodup) :
    Table.ofSource (sourceText indent pieces) =
      ⟨(declared pieces).map fun d => (d.name, d.members)⟩ := by
  have hstart : (none : Option Char).any Text.isWord = false := rfl
  have hreads := declarations_sourceText hindent h hstart
  have hdeclared : declaredNames (sourceText indent pieces) =
      (declared pieces).map Declaration.name := names_of_reads hreads
  have hfind : ∀ d ∈ declared pieces,
      find? (sourceText indent pieces) d.name = some d.members := by
    intro d hd
    have hident : Text.isIdent d.name = true := by
      obtain ⟨piece, hpiece, hsome⟩ := List.mem_filterMap.1 hd
      cases piece with
      | filler line => cases hsome
      | declaration d' =>
        obtain rfl := Option.some.inj hsome
        exact (h _ hpiece).name_isIdent
    rw [find?_eq_lookup hident, lookup_of_reads hreads hnames hd]
  have hnew : ∀ name ∈ (declared pieces).map Declaration.name,
      Table.get? ⟨[]⟩ name = none := fun _ _ => rfl
  have hfound : ∀ d ∈ declared pieces, ((fun name =>
      (find? (sourceText indent pieces) name).map fun properties => (name, properties)) ∘
        Declaration.name) d = some (d.name, d.members) := by
    intro d hd
    simp [hfind d hd]
  have hentries : (Table.ofSource (sourceText indent pieces)).entries =
      (declared pieces).map fun d => (d.name, d.members) := by
    rw [Table.ofSource_eq_foldl, hdeclared, entries_foldl_addFound hnames hnew, List.nil_append,
      List.filterMap_map, List.filterMap_congr hfound]
    exact congrFun List.filterMap_eq_map (declared pieces)
  exact congrArg Table.mk hentries

/-- A type in which every separator occurs, inside brackets. -/
def sampleType : Text := "\x7b a: [string; number]\n \x7d[]".toList

theorem nested_sampleType : Nested (fun c => ¬ IsSeparator c) sampleType := by
  have htuple : Nested (fun _ => True) ('[' :: ("string; number".toList ++ ']' :: "\n ".toList)) :=
    .pair (Or.inr (Or.inl ⟨rfl, rfl⟩)) (Nested.of_all (by decide)) (Nested.of_all (by decide))
  have hlabel : Nested (fun _ => True) " a: ".toList := Nested.of_all (by decide)
  exact .pair (Or.inl ⟨rfl, rfl⟩) (hlabel.append htuple)
    (.pair (Or.inr (Or.inl ⟨rfl, rfl⟩)) .nil .nil)

/-- Two declarations, the first one with names that hold keywords, and other lines around them. -/
def samplePieces : List Piece :=
  [.filler "// props \x7b".toList,
    .declaration
      { exported := true
        name := "x$interface".toList
        members := [⟨"readonly".toList, true, sampleType⟩,
          ⟨"interface".toList, false, "string".toList⟩] },
    .filler [],
    .declaration { exported := false, name := "A".toList, members := [] },
    .filler "export default 1".toList]

theorem wellFormed_samplePieces : ∀ piece ∈ samplePieces, piece.WellFormed := by
  have hfirst : Property.WellFormed ⟨"readonly".toList, true, sampleType⟩ :=
    ⟨by decide, by decide, by decide, nested_sampleType, by decide⟩
  have hsecond : Property.WellFormed ⟨"interface".toList, false, "string".toList⟩ :=
    ⟨by decide, by decide, by decide, Nested.of_all (by decide), by decide⟩
  intro piece hpiece
  simp only [samplePieces, List.mem_cons, List.not_mem_nil, or_false] at hpiece
  rcases hpiece with rfl | rfl | rfl | rfl | rfl
  · change ¬ keyword <:+: _
    decide
  · refine ⟨by decide, fun p hp => ?_⟩
    simp only [List.mem_cons, List.not_mem_nil, or_false] at hp
    rcases hp with rfl | rfl
    · exact hfirst
    · exact hsecond
  · change ¬ keyword <:+: _
    decide
  · exact ⟨by decide, by simp⟩
  · change ¬ keyword <:+: _
    decide

theorem ofSource_sourceText_sample :
    (IsIndent "  ".toList ∧ (∀ piece ∈ samplePieces, piece.WellFormed) ∧
      ((declared samplePieces).map Declaration.name).Nodup) ∧
    Table.ofSource (sourceText "  ".toList samplePieces) =
      ⟨[("x$interface".toList, [⟨"readonly".toList, true, sampleType⟩,
          ⟨"interface".toList, false, "string".toList⟩]),
        ("A".toList, [])]⟩ := by
  have hall : "  ".toList.all (fun c => decide (Text.isBlank c = true ∧ c ≠ '\n')) = true := by
    decide
  have hindent : IsIndent "  ".toList :=
    fun c hc => of_decide_eq_true (List.all_eq_true.1 hall c hc)
  have hnames : ((declared samplePieces).map Declaration.name).Nodup := by decide
  exact ⟨⟨hindent, wellFormed_samplePieces, hnames⟩,
    ofSource_sourceText hindent wellFormed_samplePieces hnames⟩

end PropCatalog.Interface
