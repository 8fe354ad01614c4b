import PropCatalog.Proofs.Component.Bindings

/-!
# Entries in any layout

An entry may be laid out over several lines: a space that stands alone may become white space and
line comments with a line break, and there may be more of them around every entry. The reader undoes
the layout (`entries_isLayout`). What it has read and the space that is due make up the entry that
is meant, whatever the layout so far (`entriesFrom_reflows`). A comment that is put directly behind
a slash of an entry is no comment: the first two slashes start it, and the slash of the entry is
lost (`entries_ne_of_slash`).
-/

namespace PropCatalog.Component

open PropCatalog.Bracket (isOpener isCloser)

variable {last anywhere : Bool} {d : Nat} {p q : Pending} {c : Char} {before : Option Char}
  {e f g s t u : Text} {es : List Text}

/-! ## Layouts -/

/-- White space and line comments. Only if nothing follows may the last comment lack its line break.
-/
inductive IsFiller : (last : Bool) → Text → Prop
  | nil {last : Bool} : IsFiller last []
  | blank {last : Bool} {c : Char} {f : Text} (hc : Text.isBlank c = true) (hf : IsFiller last f) :
      IsFiller last (c :: f)
  | comment {last : Bool} {t f : Text} (ht : '\n' ∉ t) (hf : IsFiller last f) :
      IsFiller last ('/' :: '/' :: (t ++ '\n' :: f))
  | openComment {t : Text} (ht : '\n' ∉ t) : IsFiller true ('/' :: '/' :: t)

/-- The text `u` is the rest `e` of an entry in some layout. In the entry `before` is the character
before the rest and `d` the depth of brackets there, which ends at zero; outside string literals it
has no line break, no two slashes in a row, and commas in brackets only. A space between characters
that are no blanks may be laid out with a line break. Unless comments may stand `anywhere`, none is
put directly behind a slash. -/
inductive Reflows (anywhere : Bool) : (before : Option Char) → (d : Nat) → (e u : Text) → Prop
  | nil {before : Option Char} : Reflows anywhere before 0 [] []
  | plain {before : Option Char} {d : Nat} {c : Char} {e u : Text} (hc : isCodeChar c = true)
      (hslash : c = '/' → before ≠ some '/') (hcomma : c = ',' → 0 < d)
      (h : Reflows anywhere (some c) d e u) : Reflows anywhere before d (c :: e) (c :: u)
  | quoted {before : Option Char} {d : Nat} {quote : Char} {b e u : Text}
      (hquote : isQuote quote = true) (hb : IsBody quote b)
      (h : Reflows anywhere (some quote) d e u) :
      Reflows anywhere before d (quote :: (b ++ quote :: e)) (quote :: (b ++ quote :: u))
  | opener {before : Option Char} {d : Nat} {c : Char} {e u : Text} (hc : isOpener c = true)
      (h : Reflows anywhere (some c) (d + 1) e u) : Reflows anywhere before d (c :: e) (c :: u)
  | closer {before : Option Char} {d : Nat} {c : Char} {e u : Text} (hc : isCloser c = true)
      (h : Reflows anywhere (some c) d e u) : Reflows anywhere before (d + 1) (c :: e) (c :: u)
  | space {before : Option Char} {d : Nat} {f e u : Text}
      (hbefore : before.all Text.isBlank = false) (hnext : e.head?.all Text.isBlank = false)
      (hf : IsFiller false f) (hline : '\n' ∈ f)
      (hslash : anywhere = true ∨ before ≠ some '/' ∨ f.head? ≠ some '/')
      (h : Reflows anywhere (some ' ') d e u) : Reflows anywhere before d (' ' :: e) (f ++ u)

/-- The text is the entry `e` in some layout, with white space and comments around it; `last` tells
whether nothing follows. -/
inductive IsLaidOut (anywhere last : Bool) (e : Text) : Text → Prop
  | mk {lead u trail : Text} (he : IsEntry e) (hlead : IsFiller false lead)
      (hu : Reflows anywhere none 0 e u) (htrail : IsFiller last trail)
      (hslash : anywhere = true ∨ e.getLast? ≠ some '/' ∨ trail.head? ≠ some '/') :
      IsLaidOut anywhere last e (lead ++ (u ++ trail))

/-- The text is a list of entries in some layout, with commas between them. There may be a comma at
the end, and nothing but white space and comments between two commas. -/
inductive IsLayout (anywhere : Bool) : (es : List Text) → Text → Prop
  | nil {f : Text} (hf : IsFiller true f) : IsLayout anywhere [] f
  | last {e t : Text} (he : IsLaidOut anywhere true e t) : IsLayout anywhere [e] t
  | cons {e t s : Text} {es : List Text} (he : IsLaidOut anywhere false e t)
      (hs : IsLayout anywhere es s) : IsLayout anywhere (e :: es) (t ++ ',' :: s)
  | skip {f s : Text} {es : List Text} (hf : IsFiller false f) (hs : IsLayout anywhere es s) :
      IsLayout anywhere es (f ++ ',' :: s)

/-! ## White space and comments -/

/-- A line has ended, and no character has been read since. -/
def Pending.IsBroken (p : Pending) : Prop :=
  p.spaceDue = true ∧ p.reversed.dropWhile Text.isBlank = p.reversed

theorem Pending.isBroken_endLine (p : Pending) : p.endLine.IsBroken :=
  ⟨rfl, Text.dropWhile_eq_self (Text.head?_dropWhile _ p.reversed)⟩

theorem Pending.IsBroken.blank (hc : Text.isBlank c = true) (h : p.IsBroken) :
    (if c = '\n' then p.endLine else p.push c).IsBroken := by
  split
  · exact p.isBroken_endLine
  · have hpush : p.push c = p := by
      rw [push, hc, h.1]
      rfl
    rwa [hpush]

theorem entriesFrom_lineComment (ht : '\n' ∉ t) (p : Pending) (d : Nat) (s : Text) :
    entriesFrom p d .code ('/' :: '/' :: (t ++ '\n' :: s)) = entriesFrom p.endLine d .code s := by
  have hslash : '\n' ∉ '/' :: t := by simpa using ht
  rw [entriesFrom_code_cons, if_neg (by decide), if_pos (by simp), ← List.cons_append,
    entriesFrom_comment hslash, entriesFrom_newline]

theorem entriesFrom_openComment (ht : '\n' ∉ t) (p : Pending) (d : Nat) :
    entriesFrom p d .comment t = p.finish := by
  induction t with
  | nil => rfl
  | cons c t ih =>
    obtain ⟨hne, ht⟩ := List.ne_and_not_mem_of_not_mem_cons ht
    rw [entriesFrom_comment_cons, if_neg hne.symm, ih ht]

theorem exists_entriesFrom_filler (hf : IsFiller last f) (hlast : last = false) (p : Pending)
    (d : Nat) (s : Text) : ∃ q, entriesFrom p d .code (f ++ s) = entriesFrom q d .code s ∧
      p.SameInk q ∧ ('\n' ∈ f ∨ p.IsBroken → q.IsBroken) := by
  induction hf generalizing p with
  | nil => exact ⟨p, rfl, ⟨rfl, id⟩, fun h => h.resolve_left (by simp)⟩
  | @blank last c f hc _ ih =>
    obtain ⟨q, hq, hsame, hbroken⟩ := ih hlast (if c = '\n' then p.endLine else p.push c)
    refine ⟨q, by rw [List.cons_append, entriesFrom_blank hc, hq],
      (Pending.sameInk_blank hc p).trans hsame, fun h => hbroken ?_⟩
    rcases h with hline | hp
    · rcases List.mem_cons.1 hline with rfl | hline
      · exact Or.inr p.isBroken_endLine
      · exact Or.inl hline
    · exact Or.inr (hp.blank hc)
  | @comment last t f ht _ ih =>
    obtain ⟨q, hq, hsame, hbroken⟩ := ih hlast p.endLine
    have htext : '/' :: '/' :: (t ++ '\n' :: f) ++ s = '/' :: '/' :: (t ++ '\n' :: (f ++ s)) := by
      simp
    refine ⟨q, by rw [htext, entriesFrom_lineComment ht, hq], ?_,
      fun _ => hbroken (Or.inr p.isBroken_endLine)⟩
    exact (Pending.sameInk_blank (c := '\n') rfl p).trans hsame
  | openComment => cases hlast

theorem exists_finish_filler (hf : IsFiller last f) (p : Pending) (d : Nat) :
    ∃ q, entriesFrom p d .code f = q.finish ∧ p.SameInk q := by
  induction hf generalizing p with
  | nil => exact ⟨p, rfl, rfl, id⟩
  | @blank last c f hc _ ih =>
    obtain ⟨q, hq, hsame⟩ := ih (if c = '\n' then p.endLine else p.push c)
    exact ⟨q, by rw [entriesFrom_blank hc, hq], (Pending.sameInk_blank hc p).trans hsame⟩
  | @comment last t f ht _ ih =>
    obtain ⟨q, hq, hsame⟩ := ih p.endLine
    exact ⟨q, by rw [entriesFrom_lineComment ht, hq],
      (Pending.sameInk_blank (c := '\n') rfl p).trans hsame⟩
  | @openComment t ht =>
    have hslash : '\n' ∉ '/' :: t := by simpa using ht
    refine ⟨p, ?_, rfl, id⟩
    rw [entriesFrom_code_cons, if_neg (by decide), if_pos (by simp),
      entriesFrom_openComment hslash]

/-! ## One entry -/

theorem Reflows.head?_append_ne (h : Reflows false (some '/') d e u)
    (hs : e.getLast?.or (some '/') = some '/' → s.head? ≠ some '/') :
    (u ++ s).head? ≠ some '/' := by
  cases h with
  | nil => exact hs rfl
  | plain _ hslash =>
    intro hhead
    exact hslash (Option.some.inj hhead) rfl
  | quoted hquote =>
    rintro hhead
    cases Option.some.inj hhead
    cases hquote
  | opener hc =>
    intro hhead
    cases Option.some.inj hhead
    cases hc
  | closer hc =>
    intro hhead
    cases Option.some.inj hhead
    cases hc
  | @space _ _ f e u _ _ _ hline hslash =>
    have hhead : f.head? ≠ some '/' := by simpa using hslash
    cases f with
    | nil => cases hline
    | cons c f => exact hhead

theorem Pending.push_settled (h : p.spaceDue = false ∧ p.reversed ≠ [] ∨ Text.isBlank c = false) :
    p.push c = ⟨c :: p.settled, false⟩ := by
  rcases h with ⟨hdue, hne⟩ | hblank
  · obtain ⟨r, due⟩ := p
    obtain rfl : due = false := hdue
    rw [push_quoted hne, settled_mk_false]
  · exact push_of_not_blank hblank p

theorem Pending.eq_of_settled (h : p.settled.head?.all Text.isBlank = false) :
    p = ⟨p.settled, false⟩ := by
  obtain ⟨r, due⟩ := p
  cases due with
  | false => rfl
  | true =>
    cases r with
    | nil => cases h
    | cons c r => cases h

theorem exists_entriesFrom_lineBreak (hf : IsFiller false f) (hline : '\n' ∈ f)
    (hp : p.settled.head?.all Text.isBlank = false) (d : Nat) (s : Text) :
    ∃ q, entriesFrom p d .code (f ++ s) = entriesFrom q d .code s ∧
      q.settled = ' ' :: p.settled := by
  obtain ⟨q, hq, hsame, hbroken⟩ := exists_entriesFrom_filler hf rfl p d s
  obtain ⟨hdue, htidy⟩ := hbroken (Or.inl hline)
  obtain ⟨c, r, hr⟩ : ∃ c r, p.settled = c :: r :=
    List.exists_cons_of_ne_nil fun hnil => by simp [hnil] at hp
  have hblank : Text.isBlank c = false := by simpa [hr] using hp
  have hreversed : q.reversed = p.settled := by
    rw [← htidy, hsame.1, Pending.eq_of_settled hp, Pending.settled_mk_false, hr]
    exact Text.dropWhile_eq_self (by simpa using hblank)
  refine ⟨q, hq, ?_⟩
  rw [Pending.settled, hdue, hreversed, hr]
  rfl

/-- An entry is taken back from its layout. The space that is due belongs to what has
been read. -/
theorem entriesFrom_reflows (h : Reflows false before d e u) (hbefore : p.settled.head? = before)
    (hp : p.spaceDue = false ∧ p.reversed ≠ [] ∨ e.head?.all Text.isBlank = false)
    (hs : e.getLast?.or before = some '/' → s.head? ≠ some '/') :
    entriesFrom p d .code (u ++ s) = entriesFrom ⟨e.reverse ++ p.settled, false⟩ 0 .code s := by
  induction h generalizing p with
  | nil =>
    obtain ⟨r, due⟩ := p
    obtain ⟨hdue, -⟩ := hp.resolve_right (by simp)
    obtain rfl : due = false := hdue
    rfl
  | @plain before d c e u hc hslash hcomma h ih =>
    rw [Text.getLast?_cons_or] at hs
    have hnext : c = '/' → (u ++ s).head? ≠ some '/' := by
      rintro rfl
      exact h.head?_append_ne hs
    have hpush := Pending.push_settled (hp.imp_right fun hblank => by simpa using hblank)
    rw [List.cons_append, entriesFrom_codeChar hc hnext hcomma, hpush,
      ih rfl (Or.inl ⟨rfl, by simp⟩) hs]
    simp
  | @quoted before d quote b e u hquote hb h ih =>
    -- a string is taken as a whole, with what looks like structure in it
    have hstring := (takes_quoted hquote hb).entriesFrom_append p d (u ++ s) (Nat.zero_le d)
    have happend : quote :: (b ++ quote :: u) ++ s = quote :: (b ++ [quote]) ++ (u ++ s) := by simp
    have hlast : (quote :: (b ++ quote :: e)).getLast?.or before = e.getLast?.or (some quote) := by
      rw [← List.cons_append, List.getLast?_append, Option.or_assoc, Text.getLast?_cons_or]
    rw [happend, hstring, ih (by simp) (Or.inl ⟨rfl, by simp⟩) (hlast ▸ hs)]
    simp
  | @opener before d c e u hc h ih =>
    rw [Text.getLast?_cons_or] at hs
    rw [List.cons_append, entriesFrom_opener hc, ih rfl (Or.inl ⟨rfl, by simp⟩) hs]
    simp
  | @closer before d c e u hc h ih =>
    rw [Text.getLast?_cons_or] at hs
    rw [List.cons_append, entriesFrom_closer hc, ih rfl (Or.inl ⟨rfl, by simp⟩) hs]
    simp
  | @space before d f e u hblank hnext hf hline _ h ih =>
    rw [Text.getLast?_cons_or] at hs
    -- a line break in the layout is the blank of the entry
    obtain ⟨q, hq, hsettled⟩ :=
      exists_entriesFrom_lineBreak hf hline (hbefore ▸ hblank) d (u ++ s)
    have hhead : q.settled.head? = some ' ' := by rw [hsettled]; rfl
    rw [List.append_assoc, hq, ih hhead (Or.inr hnext) hs, hsettled]
    simp

theorem entriesFrom_entry_of_reflows {lead : Text} (he : IsEntry e) (hlead : IsFiller false lead)
    (hu : Reflows false none 0 e u) (hp : p.reversed = [])
    (hs : e.getLast? = some '/' → s.head? ≠ some '/') :
    entriesFrom p 0 .code (lead ++ (u ++ s)) = entriesFrom ⟨e.reverse, false⟩ 0 .code s := by
  obtain ⟨q, hq, hsame, -⟩ := exists_entriesFrom_filler hlead rfl p 0 (u ++ s)
  have hsettled : q.settled = [] := by simp [Pending.settled, hsame.2 hp]
  have hhead : e.head?.all Text.isBlank = false := by
    obtain ⟨hhead, -⟩ := Text.not_blank_of_trim_eq_self he.trim_eq
    obtain ⟨c, e, rfl⟩ := List.exists_cons_of_ne_nil he.ne_nil
    exact hhead
  rw [hq, entriesFrom_reflows hu (by rw [hsettled]; rfl) (Or.inr hhead) (by simpa using hs),
    hsettled, List.append_nil]

/-! ## All entries -/

theorem Pending.SameInk.finish_entry (h : Pending.SameInk ⟨e.reverse, false⟩ q) (he : IsEntry e) :
    q.finish = [e] := by
  obtain ⟨-, hlast⟩ := Text.not_blank_of_trim_eq_self he.trim_eq
  exact finish_of_dropWhile he (h.1.trans (Text.dropWhile_eq_self (by rwa [List.head?_reverse])))

theorem entriesFrom_isLayout (h : IsLayout false es t) (hp : p.reversed = []) :
    entriesFrom p 0 .code t = es := by
  induction h generalizing p with
  | nil hf =>
    obtain ⟨q, hq, hsame⟩ := exists_finish_filler hf p 0
    rw [hq, Pending.finish_of_nil (hsame.2 hp)]
  | @last e _ he =>
    obtain ⟨he, hlead, hu, htrail, hslash⟩ := he
    obtain ⟨q, hq, hsame⟩ := exists_finish_filler htrail ⟨e.reverse, false⟩ 0
    rw [entriesFrom_entry_of_reflows he hlead hu hp ?_, hq, hsame.finish_entry he]
    exact fun hend => (hslash.resolve_left (by simp)).resolve_left (not_not_intro hend)
  | @cons e _ s es he _ ih =>
    obtain ⟨he, hlead, hu, htrail, hslash⟩ := he
    rename_i lead u trail
    obtain ⟨q, hq, hsame, -⟩ :=
      exists_entriesFrom_filler htrail rfl ⟨e.reverse, false⟩ 0 (',' :: s)
    -- no comment stands directly behind a slash, and a comma starts none
    have hnext : e.getLast? = some '/' → (trail ++ ',' :: s).head? ≠ some '/' := fun hend => by
      have htrail := (hslash.resolve_left (by simp)).resolve_left (not_not_intro hend)
      cases trail with
      | nil => simp
      | cons c trail => exact htrail
    rw [List.append_assoc, List.append_assoc, entriesFrom_entry_of_reflows he hlead hu hp hnext, hq,
      entriesFrom_comma_zero, hsame.finish_entry he, ih rfl]
    rfl
  | @skip f s es hf _ ih =>
    obtain ⟨q, hq, hsame, -⟩ := exists_entriesFrom_filler hf rfl p 0 (',' :: s)
    rw [hq, entriesFrom_comma_zero, Pending.finish_of_nil (hsame.2 hp), ih rfl]
    rfl

/-- **Splitting undoes the layout** in which no comment is put directly behind a slash: it finds the
entries as they are meant, in order and with their strings as they are. -/
theorem entries_isLayout (h : IsLayout false es t) : entries t = es :=
  entriesFrom_isLayout h rfl

/-! ## Layouts with strings and comments -/

theorem Reflows.word {w : Text} (hw : w.all (fun c => isCodeChar c && c ≠ '/' && c ≠ ',') = true)
    (h : Reflows anywhere (w.getLast?.or before) d e u) :
    Reflows anywhere before d (w ++ e) (w ++ u) := by
  induction w generalizing before with
  | nil => exact h
  | cons c w ih =>
    simp only [List.all_cons, Bool.and_eq_true, decide_eq_true_eq] at hw
    obtain ⟨⟨⟨hc, hslash⟩, hcomma⟩, hw⟩ := hw
    rw [Text.getLast?_cons_or] at h
    exact .plain hc (fun h => absurd h hslash) (fun h => absurd h hcomma)
      (ih (by simpa using hw) h)

theorem IsFiller.blanks {w : Text} (hw : w.all Text.isBlank = true) (hf : IsFiller last f) :
    IsFiller last (w ++ f) := by
  induction w with
  | nil => exact hf
  | cons c w ih =>
    obtain ⟨hc, hw⟩ := Bool.and_eq_true_iff.1 hw
    exact .blank hc (ih hw)

theorem entries_isLayout_list :
    IsLayout false ["tags = [ 'a, // b', 1 ]".toList, "size".toList]
        "\n  tags = [\n    'a, // b', // first\n    1\n  ],\n  // last\n  size,\n".toList ∧
      entries "\n  tags = [\n    'a, // b', // first\n    1\n  ],\n  // last\n  size,\n".toList =
        ["tags = [ 'a, // b', 1 ]".toList, "size".toList] := by
  have hlayout : IsLayout false ["tags = [ 'a, // b', 1 ]".toList, "size".toList]
      "\n  tags = [\n    'a, // b', // first\n    1\n  ],\n  // last\n  size,\n".toList := by
    have hbody : IsBody '\'' "a, // b".toList := isBody_of_all (by decide)
    have hitem : IsFiller false " // first\n    ".toList :=
      .blanks (w := [' ']) (by decide) <|
        .comment (t := " first".toList) (by decide) <|
          .blanks (w := "    ".toList) (by decide) .nil
    have htags : Reflows false none 0 "tags = [ 'a, // b', 1 ]".toList
        "tags = [\n    'a, // b', // first\n    1\n  ]".toList :=
      .word (w := "tags = ".toList) (by decide) <|
        .opener (by decide) <|
          .space (f := "\n    ".toList) (by decide) (by decide)
            (.blanks (w := "\n    ".toList) (by decide) .nil) (by decide) (by decide) <|
            .quoted (by decide) hbody <|
              .plain (by decide) (by decide) (by decide) <|
                .space (by decide) (by decide) hitem (by decide) (by decide) <|
                  .word (w := ['1']) (by decide) <|
                    .space (f := "\n  ".toList) (by decide) (by decide)
                      (.blanks (w := "\n  ".toList) (by decide) .nil) (by decide) (by decide) <|
                      .closer (by decide) .nil
    have hsize : Reflows false none 0 "size".toList "size".toList :=
      .word (w := "size".toList) (by decide) .nil
    have hfirst : IsLaidOut false false "tags = [ 'a, // b', 1 ]".toList ("\n  ".toList ++
        ("tags = [\n    'a, // b', // first\n    1\n  ]".toList ++ [])) :=
      .mk ⟨by decide, by decide, by decide⟩ (.blanks (w := "\n  ".toList) (by decide) .nil) htags
        .nil (by decide)
    have hsecond : IsLaidOut false false "size".toList
        ("\n  // last\n  ".toList ++ ("size".toList ++ [])) :=
      .mk ⟨by decide, by decide, by decide⟩
        (.blanks (w := "\n  ".toList) (by decide) <|
          .comment (t := " last".toList) (by decide) <|
            .blanks (w := "  ".toList) (by decide) .nil)
        hsize .nil (by decide)
    exact .cons hfirst (.cons hsecond (.nil (.blanks (w := ['\n']) (by decide) .nil)))
  exact ⟨hlayout, entries_isLayout hlayout⟩

/-- A comment behind the slash of a division takes the slash away. -/
theorem entries_ne_of_slash :
    IsLayout true ["x = a / b".toList] "x = a ///c\nb".toList ∧
      entries "x = a ///c\nb".toList = ["x = a b".toList] ∧
      ["x = a b".toList] ≠ ["x = a / b".toList] := by
  have hdivision : Reflows true none 0 "x = a / b".toList "x = a ///c\nb".toList :=
    .word (w := "x = a ".toList) (by decide) <|
      .plain (by decide) (by decide) (by decide) <|
        .space (f := "//c\n".toList) (by decide) (by decide)
          (.comment (t := ['c']) (by decide) .nil) (by decide) (by decide) <|
          .word (w := ['b']) (by decide) .nil
  have hentry : IsLaidOut true true "x = a / b".toList ([] ++ ("x = a ///c\nb".toList ++ [])) :=
    .mk ⟨by decide, by decide, by decide⟩ .nil hdivision .nil (by decide)
  exact ⟨.last hentry, by decide, by decide⟩

end PropCatalog.Component
