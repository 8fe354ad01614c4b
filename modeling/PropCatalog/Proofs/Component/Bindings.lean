import PropCatalog.Proofs.Component.Written
import PropCatalog.Proofs.Text.Balance

/-!
# Defaults of any form

A destructured parameter is a list of names, each with an expression for its default or without one,
with commas between them and white space and comments around them. The expressions are code on one
line: their brackets are nested outside string literals, and the strings hold anything. The reader
of entries knows strings and comments and takes such a text apart into its names and expressions
(`entries_bindingsText`). The search for the closing brace does not know them: it finds the end of the
parameter exactly if the braces of the whole text are balanced, those in strings and comments
included, and then the defaults are those that are written (`defaults_functionText`).
-/

namespace PropCatalog.Component

open PropCatalog.Bracket (isOpener isCloser IsPair Balanced)

variable {inside : Bool} {d : Nat} {p : Pending} {c quote : Char} {a b e g r s t w : Text}

/-! ## Code and white space -/

/-- A character of code that is no quote, no bracket and no line break. -/
def isCodeChar (c : Char) : Bool :=
  !isQuote c && !isOpener c && !isCloser c && c ≠ '\n'

/-- Code on one line. Outside string literals its brackets are properly nested and no two slashes
stand together; `inside` tells whether it stands in brackets, where commas may stand. -/
inductive IsCode : (inside : Bool) → Text → Prop
  | nil {inside : Bool} : IsCode inside []
  | plain {inside : Bool} {c : Char} {s : Text} (hc : isCodeChar c = true)
      (hslash : c = '/' → s.head? ≠ some '/') (hcomma : c = ',' → inside = true)
      (hs : IsCode inside s) : IsCode inside (c :: s)
  | quoted {inside : Bool} {quote : Char} {b s : Text} (hquote : isQuote quote = true)
      (hb : IsBody quote b) (hline : '\n' ∉ b) (hs : IsCode inside s) :
      IsCode inside (quote :: (b ++ quote :: s))
  | pair {inside : Bool} {opener closer : Char} {a s : Text} (hpair : IsPair opener closer)
      (ha : IsCode true a) (hs : IsCode inside s) : IsCode inside (opener :: (a ++ closer :: s))

/-- A default expression. -/
structure IsExpression (e : Text) : Prop where
  ne_nil : e ≠ []
  trim_eq : Text.trim e = e
  isCode : IsCode false e

/-- White space with comments on lines of their own. -/
inductive IsGap : Text → Prop
  | blanks {w : Text} (hw : w.all Text.isBlank = true) : IsGap w
  | comment {w c g : Text} (hw : w.all Text.isBlank = true) (hline : '\n' ∈ w) (hc : '\n' ∉ c)
      (hg : IsGap ('\n' :: g)) : IsGap (w ++ '/' :: '/' :: (c ++ '\n' :: g))

theorem isBody_of_all (h : b.all (fun c => c ≠ quote && c ≠ '\\') = true) : IsBody quote b := by
  induction b with
  | nil => exact .nil
  | cons c b ih =>
    obtain ⟨hc, hb⟩ := Bool.and_eq_true_iff.1 h
    simp only [Bool.and_eq_true, decide_eq_true_eq] at hc
    exact .plain hc.1 hc.2 (ih hb)

theorem isExpression_quoted (hquote : isQuote quote = true) (hb : IsBody quote b)
    (hline : '\n' ∉ b) : IsExpression (quote :: (b ++ [quote])) := by
  have hblank : Text.isBlank quote = false := by
    simp only [isQuote, Bool.or_eq_true, decide_eq_true_eq] at hquote
    rcases hquote with (rfl | rfl) | rfl <;> rfl
  have hlast : (quote :: (b ++ [quote])).getLast? = some quote := by
    rw [← List.cons_append, List.getLast?_append]
    rfl
  exact ⟨by simp, Text.trim_eq_self (by simpa using hblank) (by simpa [hlast] using hblank),
    .quoted hquote hb hline .nil⟩

/-! ## The reader of entries -/

theorem entriesFrom_codeChar (hc : isCodeChar c = true) (hslash : c = '/' → s.head? ≠ some '/')
    (hcomma : c = ',' → 0 < d) (p : Pending) :
    entriesFrom p d .code (c :: s) = entriesFrom (p.push c) d .code s := by
  simp only [isCodeChar, Bool.and_eq_true, Bool.not_eq_true', decide_eq_true_eq] at hc
  obtain ⟨⟨⟨hquote, hopener⟩, hcloser⟩, hline⟩ := hc
  have hcomment : ¬ (c = '/' && s.head? = some '/') = true := by simpa using hslash
  have hend : ¬ (c = ',' && d = 0) = true := by
    simp only [Bool.and_eq_true, decide_eq_true_eq, not_and]
    exact fun h => Nat.pos_iff_ne_zero.1 (hcomma h)
  rw [entriesFrom_code_cons, hquote, if_neg Bool.false_ne_true, if_neg hcomment, if_neg hend,
    if_neg hline, Bracket.depth_plain hopener hcloser]

theorem entriesFrom_isCode (h : IsCode inside t) (hr : r ≠ []) (hd : inside = true → 0 < d)
    (hs : s.head? ≠ some '/') :
    entriesFrom ⟨r, false⟩ d .code (t ++ s) = entriesFrom ⟨t.reverse ++ r, false⟩ d .code s := by
  induction h generalizing r d s with
  | nil => rfl
  | @plain inside c t hc hslash hcomma _ ih =>
    -- the slash of a division does not start a comment
    have hnext : c = '/' → (t ++ s).head? ≠ some '/' := fun hc => by
      cases t with
      | nil => exact hs
      | cons e t => exact hslash hc
    rw [List.cons_append, entriesFrom_codeChar hc hnext fun hc => hd (hcomma hc),
      Pending.push_quoted hr, ih (by simp) hd hs]
    simp
  | @quoted inside quote b t hquote hb _ _ ih =>
    have hstring := (takes_quoted hquote hb).entriesFrom_append ⟨r, false⟩ d (t ++ s) (Nat.zero_le d)
    have happend : quote :: (b ++ quote :: t) ++ s = quote :: (b ++ [quote]) ++ (t ++ s) := by simp
    rw [happend, hstring, Pending.settled_mk_false, ih (by simp) hd hs]
    simp
  | @pair inside opener closer a t hpair _ _ iha iht =>
    have hbrackets : isOpener opener = true ∧ isCloser closer = true ∧ closer ≠ '/' := by
      rcases hpair with ⟨rfl, rfl⟩ | ⟨rfl, rfl⟩ | ⟨rfl, rfl⟩ <;> decide
    obtain ⟨hopener, hcloser, hne⟩ := hbrackets
    have happend : opener :: (a ++ closer :: t) ++ s = opener :: (a ++ closer :: (t ++ s)) := by simp
    rw [happend, entriesFrom_opener hopener, Pending.settled_mk_false,
      iha (by simp) (fun _ => Nat.succ_pos d) (by simpa using hne), entriesFrom_closer hcloser,
      Pending.settled_mk_false, iht (by simp) hd hs]
    simp

theorem entriesFrom_blank (hc : Text.isBlank c = true) (p : Pending) (d : Nat) (s : Text) :
    entriesFrom p d .code (c :: s) =
      entriesFrom (if c = '\n' then p.endLine else p.push c) d .code s := by
  by_cases hline : c = '\n'
  · rw [hline, if_pos rfl]
    rfl
  · have hclass := Text.forall_blank (p := fun c =>
      (c = '\n' || isCodeChar c) && c ≠ '/' && c ≠ ',') (by decide +kernel) hc
    simp only [hline, decide_false, Bool.false_or, Bool.and_eq_true, decide_eq_true_eq] at hclass
    rw [if_neg hline, entriesFrom_codeChar hclass.1.1 (fun h => absurd h hclass.1.2)
      (fun h => absurd h hclass.2)]

theorem entriesFrom_comment_cons (p : Pending) (d : Nat) (c : Char) (s : Text) :
    entriesFrom p d .comment (c :: s) =
      if c = '\n' then entriesFrom p.endLine d .code s else entriesFrom p d .comment s := (rfl)

theorem entriesFrom_comment (hc : '\n' ∉ t) (p : Pending) (d : Nat) (s : Text) :
    entriesFrom p d .comment (t ++ '\n' :: s) = entriesFrom p d .code ('\n' :: s) := by
  induction t with
  | nil => rfl
  | cons c t ih =>
    obtain ⟨hne, ht⟩ := List.ne_and_not_mem_of_not_mem_cons hc
    rw [List.cons_append, entriesFrom_comment_cons, if_neg hne.symm, ih ht]

/-- Two states that differ in the blanks read last. -/
def Pending.SameInk (p q : Pending) : Prop :=
  q.reversed.dropWhile Text.isBlank = p.reversed.dropWhile Text.isBlank ∧
    (p.reversed = [] → q.reversed = [])

theorem Pending.SameInk.trans {p q r : Pending} (hpq : p.SameInk q) (hqr : q.SameInk r) :
    p.SameInk r :=
  ⟨hqr.1.trans hpq.1, fun h => hqr.2 (hpq.2 h)⟩

theorem Pending.sameInk_blank (hc : Text.isBlank c = true) (p : Pending) :
    p.SameInk (if c = '\n' then p.endLine else p.push c) := by
  obtain ⟨r, due⟩ := p
  split
  · refine ⟨?_, fun h => ?_⟩
    · exact Text.dropWhile_eq_self (Text.head?_dropWhile _ r)
    · simp only [endLine] at h ⊢
      rw [h]
      rfl
  · cases due <;> cases r <;> simp [push, hc, SameInk]

theorem exists_entriesFrom_blanks (hw : w.all Text.isBlank = true) (p : Pending) (d : Nat)
    (s : Text) : ∃ q, entriesFrom p d .code (w ++ s) = entriesFrom q d .code s ∧ p.SameInk q := by
  induction w generalizing p with
  | nil => exact ⟨p, rfl, rfl, id⟩
  | cons c w ih =>
    obtain ⟨hc, hw⟩ := Bool.and_eq_true_iff.1 hw
    obtain ⟨q, hq, hsame⟩ := ih hw (if c = '\n' then p.endLine else p.push c)
    exact ⟨q, by rw [List.cons_append, entriesFrom_blank hc, hq],
      (Pending.sameInk_blank hc p).trans hsame⟩

theorem exists_entriesFrom_gap (hg : IsGap g) (p : Pending) (d : Nat) (s : Text) :
    ∃ q, entriesFrom p d .code (g ++ s) = entriesFrom q d .code s ∧ p.SameInk q := by
  induction hg generalizing p with
  | blanks hw => exact exists_entriesFrom_blanks hw p d s
  | @comment w t g hw _ ht _ ih =>
    obtain ⟨q, hq, hsame⟩ := exists_entriesFrom_blanks hw p d ('/' :: '/' :: (t ++ '\n' :: g) ++ s)
    obtain ⟨q', hq', hsame'⟩ := ih q
    have hcomment : entriesFrom q d .code ('/' :: '/' :: (t ++ '\n' :: g) ++ s) =
        entriesFrom q d .comment ('/' :: t ++ '\n' :: (g ++ s)) := by
      rw [List.cons_append, entriesFrom_code_cons, if_neg (by decide), if_pos (by simp)]
      simp
    have hslash : '\n' ∉ '/' :: t := by simpa using ht
    refine ⟨q', ?_, hsame.trans hsame'⟩
    rw [List.append_assoc, hq, hcomment, entriesFrom_comment hslash, ← List.cons_append, hq']

/-! ## Parameters -/

/-- A name that the destructured parameter binds. -/
structure Binding where
  /-- The white space and the comments before it. -/
  lead : Text
  name : Text
  /-- The expression of its default, if it has one. -/
  expression : Option Text

namespace Binding

/-- The entry of the destructured parameter. -/
def entry (b : Binding) : Text :=
  b.name ++ match b.expression with
    | none => []
    | some e => ' ' :: '=' :: ' ' :: e

/-- The name and the expression of its default. -/
def default (b : Binding) : Option (Text × Text) :=
  b.expression.map fun e => (b.name, e)

structure WellFormed (b : Binding) : Prop where
  lead_isGap : IsGap b.lead
  name_isIdent : Text.isIdent b.name = true
  isExpression : ∀ e ∈ b.expression, IsExpression e

end Binding

/-- What stands behind the last binding: white space and comments, and a comma before them or none.
-/
def IsEnding (e : Text) : Prop := IsGap e ∨ ∃ g, e = ',' :: g ∧ IsGap g

/-- The text of a destructured parameter between its braces. -/
def bindingsText (bs : List Binding) (ending : Text) : Text :=
  Text.join [','] (bs.map fun b => b.lead ++ b.entry) ++ ending

variable {binding : Binding} {bs : List Binding} {ending : Text}

theorem IsGap.head?_ne (h : IsGap g) : g.head? ≠ some '/' := by
  have hblanks : ∀ {w s : Text}, w.all Text.isBlank = true → w ≠ [] →
      (w ++ s).head? ≠ some '/' := by
    intro w s hw hne hhead
    obtain ⟨c, w, rfl⟩ := List.exists_cons_of_ne_nil hne
    obtain rfl := Option.some.inj hhead
    cases hw
  cases h with
  | blanks hw =>
    cases g with
    | nil => simp
    | cons c g => exact List.append_nil (c :: g) ▸ hblanks hw (by simp)
  | comment hw hline => exact hblanks hw (List.ne_nil_of_mem hline)

theorem IsEnding.head?_ne (h : IsEnding ending) : ending.head? ≠ some '/' := by
  rcases h with h | ⟨g, rfl, -⟩
  · exact h.head?_ne
  · simp

theorem Binding.WellFormed.isEntry (h : binding.WellFormed) : IsEntry binding.entry := by
  obtain ⟨n, hn, hstart, -⟩ := Text.head?_of_isIdent h.name_isIdent
  rw [Binding.entry]
  refine isEntry_of_isIdentStart (by simp [hn, hstart]) ?_
  cases hexpression : binding.expression with
  | none =>
    rw [List.append_nil]
    exact (takes_isIdent h.name_isIdent).last
  | some e =>
    have he := h.isExpression e hexpression
    obtain ⟨c, e, rfl⟩ := List.exists_cons_of_ne_nil he.ne_nil
    obtain ⟨-, hlast⟩ := Text.not_blank_of_trim_eq_self he.trim_eq
    have hall : (c :: e).getLast?.all Text.isBlank = false := by
      rwa [List.getLast?_cons] at hlast ⊢
    exact getLast?_append_all (getLast?_append_all hall [' ', '=', ' ']) _

theorem Binding.WellFormed.default?_entry (h : binding.WellFormed) :
    default? binding.entry = binding.default := by
  rw [Binding.entry, Binding.default]
  cases hexpression : binding.expression with
  | none => rw [List.append_nil, default?_name h.name_isIdent, Option.map_none]
  | some e =>
    have he := h.isExpression e hexpression
    exact default?_assignment h.name_isIdent he.trim_eq he.ne_nil

theorem entriesFrom_entry (h : binding.WellFormed) (hp : p.reversed = [])
    (hs : s.head? ≠ some '/') : entriesFrom p 0 .code (binding.entry ++ s) =
      entriesFrom ⟨binding.entry.reverse, false⟩ 0 .code s := by
  have hsettled : p.settled = [] := by simp [Pending.settled, hp]
  have hname := (takes_isIdent h.name_isIdent).entriesFrom_append p 0
  rw [Binding.entry]
  cases hexpression : binding.expression with
  | none => rw [List.append_nil, hname s (le_refl 0), hsettled, List.append_nil]
  | some e =>
    obtain ⟨n, hn, -, -⟩ := Text.head?_of_isIdent h.name_isIdent
    have hne : binding.name.reverse ≠ [] := by
      intro hnil
      rw [List.reverse_eq_nil_iff.1 hnil] at hn
      cases hn
    have hplain : ∀ {c : Char} {s : Text}, isCodeChar c = true → c ≠ '/' ∧ c ≠ ',' →
        IsCode false s → IsCode false (c :: s) := fun hc hne =>
      .plain hc (fun h => absurd h hne.1) (fun h => absurd h hne.2)
    have hcode : IsCode false (' ' :: '=' :: ' ' :: e) :=
      hplain (by decide) (by decide) <| hplain (by decide) (by decide) <|
        hplain (by decide) (by decide) (h.isExpression e hexpression).isCode
    rw [List.append_assoc, hname _ (le_refl 0), hsettled, List.append_nil,
      entriesFrom_isCode hcode hne (fun h => absurd h Bool.false_ne_true) hs, List.reverse_append]

theorem finish_of_dropWhile (he : IsEntry e)
    (hp : p.reversed.dropWhile Text.isBlank = e.reverse) : p.finish = [e] := by
  refine finish_of_isEntry he ?_ p.spaceDue
  have hblanks : (p.reversed.takeWhile Text.isBlank).all Text.isBlank = true := List.all_takeWhile
  have hsplit : p.reversed.reverse = e ++ (p.reversed.takeWhile Text.isBlank).reverse := by
    rw [← List.reverse_reverse e, ← hp, ← List.reverse_append, List.takeWhile_append_dropWhile]
  rw [hsplit, Text.trim_append_blanks (by rwa [List.all_reverse]), he.trim_eq]

theorem Pending.finish_of_nil (hp : p.reversed = []) : p.finish = [] := by
  simp [finish, hp, Text.trim, Text.trimStart, Text.trimEnd]

theorem IsEntry.finish (he : IsEntry e) : Pending.finish ⟨e.reverse, false⟩ = [e] :=
  finish_of_isEntry he (by rw [List.reverse_reverse, he.trim_eq]) false

theorem entriesFrom_comma_zero (p : Pending) (s : Text) :
    entriesFrom p 0 .code (',' :: s) = p.finish ++ entriesFrom .empty 0 .code s := (rfl)

theorem entriesFrom_gap_of_nil (hg : IsGap g) (hp : p.reversed = []) :
    entriesFrom p 0 .code g = [] := by
  obtain ⟨q, hq, hsame⟩ := exists_entriesFrom_gap hg p 0 []
  rw [List.append_nil] at hq
  rw [hq]
  exact Pending.finish_of_nil (hsame.2 hp)

theorem entriesFrom_ending (hending : IsEnding ending) (he : IsEntry e) :
    entriesFrom ⟨e.reverse, false⟩ 0 .code ending = [e] := by
  rcases hending with hg | ⟨g, rfl, hg⟩
  · obtain ⟨q, hq, hsame⟩ := exists_entriesFrom_gap hg ⟨e.reverse, false⟩ 0 []
    obtain ⟨-, hlast⟩ := Text.not_blank_of_trim_eq_self he.trim_eq
    rw [List.append_nil] at hq
    rw [hq]
    refine finish_of_dropWhile he (hsame.1.trans (Text.dropWhile_eq_self ?_))
    rwa [List.head?_reverse]
  · rw [entriesFrom_comma_zero, he.finish, entriesFrom_gap_of_nil hg rfl]
    rfl

/-- The entries of a destructured parameter are those that are written, whatever its strings and
comments hold. -/
theorem entriesFrom_bindingsText (h : ∀ b ∈ bs, b.WellFormed) (hending : IsEnding ending)
    (hp : p.reversed = []) :
    entriesFrom p 0 .code (bindingsText bs ending) = bs.map Binding.entry := by
  induction bs generalizing p with
  | nil =>
    rcases hending with hg | ⟨g, rfl, hg⟩
    · exact entriesFrom_gap_of_nil hg hp
    · change entriesFrom p 0 .code (',' :: g) = []
      rw [entriesFrom_comma_zero, Pending.finish_of_nil hp, entriesFrom_gap_of_nil hg rfl]
      rfl
  | cons b bs ih =>
    obtain ⟨hb, hbs⟩ := List.forall_mem_cons.1 h
    have hentry : ∀ s : Text, s.head? ≠ some '/' → entriesFrom p 0 .code (b.lead ++ (b.entry ++ s)) =
        entriesFrom ⟨b.entry.reverse, false⟩ 0 .code s := fun s hs => by
      obtain ⟨q, hq, hsame⟩ := exists_entriesFrom_gap hb.lead_isGap p 0 (b.entry ++ s)
      rw [hq, entriesFrom_entry hb (hsame.2 hp) hs]
    cases bs with
    | nil =>
      have htext : bindingsText [b] ending = b.lead ++ (b.entry ++ ending) :=
        List.append_assoc _ _ _
      rw [htext, hentry _ hending.head?_ne, entriesFrom_ending hending hb.isEntry]
      rfl
    | cons b' bs =>
      have htext : bindingsText (b :: b' :: bs) ending =
          b.lead ++ (b.entry ++ ',' :: bindingsText (b' :: bs) ending) := by
        simp [bindingsText, Text.join]
      rw [htext, hentry _ (by simp), entriesFrom_comma_zero, hb.isEntry.finish, ih hbs rfl]
      rfl

theorem entries_bindingsText (h : ∀ b ∈ bs, b.WellFormed) (hending : IsEnding ending) :
    entries (bindingsText bs ending) = bs.map Binding.entry :=
  entriesFrom_bindingsText h hending rfl

/-! ## The definition -/

/-- A definition with a destructured parameter, up to any text behind it. -/
def functionText (component : Text) (bs : List Binding) (ending rest : Text) : Text :=
  opening component ++ (bindingsText bs ending ++ '}' :: rest)

theorem block?_functionText (hname : Text.isIdent component = true) :
    block? (functionText component bs ending rest) component =
      (Bracket.body? (bindingsText bs ending ++ '}' :: rest)).map Prod.fst := by
  have hnamed : namedBlock? ([] ++ functionText component bs ending rest) component =
      some (bindingsText bs ending ++ '}' :: rest) :=
    namedBlock?_append hname (Text.Along.nil _ _) rfl
  rw [List.nil_append] at hnamed
  rw [block?, hnamed]
  change (Bracket.body? _).bind _ = _
  cases Bracket.body? (bindingsText bs ending ++ '}' :: rest) <;> rfl

theorem filterMap_default?_entry (h : ∀ b ∈ bs, b.WellFormed) :
    (bs.map Binding.entry).filterMap default? = bs.filterMap Binding.default := by
  rw [List.filterMap_map]
  exact List.filterMap_congr fun b hb => (h b hb).default?_entry

theorem map_fst_default (bs : List Binding) :
    ((bs.filterMap Binding.default).map Prod.fst).Sublist (bs.map Binding.name) := by
  induction bs with
  | nil => exact .slnil
  | cons b bs ih =>
    rw [List.filterMap_cons, Binding.default]
    cases b.expression with
    | none => exact ih.cons _
    | some e => exact ih.cons_cons _

/-- **The parameter is read to its end exactly if the braces of its whole text are balanced**, those
in its strings and comments included; and then every default is found, whatever else its strings and
comments hold. -/
theorem defaults_functionText (hname : Text.isIdent component = true) (h : ∀ b ∈ bs, b.WellFormed)
    (hending : IsEnding ending) (hnames : (bs.map Binding.name).Nodup) :
    (block? (functionText component bs ending rest) component = some (bindingsText bs ending) ↔
        Balanced '{' '}' (bindingsText bs ending)) ∧
      (Balanced '{' '}' (bindingsText bs ending) →
        defaults (functionText component bs ending rest) component =
          bs.filterMap Binding.default) := by
  have hblock : block? (functionText component bs ending rest) component =
      some (bindingsText bs ending) ↔ Balanced '{' '}' (bindingsText bs ending) := by
    rw [block?_functionText hname, ← Bracket.body?_append_iff (b := rest)]
    constructor
    · intro hbody
      obtain ⟨⟨block, rest'⟩, hbody, rfl⟩ := Option.map_eq_some_iff.1 hbody
      have hsplit := Bracket.close?_eq_some hbody
      obtain rfl : rest = rest' := by simpa using hsplit
      exact hbody
    · intro hbody
      rw [hbody]
      rfl
  refine ⟨hblock, fun hbalanced => ?_⟩
  have hnodup := (map_fst_default bs).nodup hnames
  rw [defaults, hblock.2 hbalanced]
  dsimp only
  rw [entries_bindingsText h hending, filterMap_default?_entry h, Defaults.foldl_set hnodup]

/-- Braces in a comment and in a string, each with its other half. -/
def balancedSample : List Binding :=
  [⟨"\n  // a \x7bunit\x7d, isn't it\n  ".toList, "gap".toList, some "'\x7b4px\x7d, or 0'".toList⟩,
    ⟨"\n  ".toList, "tone".toList, none⟩]

theorem defaults_functionText_balanced :
    (Text.isIdent "Card".toList = true ∧ (∀ b ∈ balancedSample, b.WellFormed) ∧
        IsEnding ",\n".toList ∧ (balancedSample.map Binding.name).Nodup) ∧
      Balanced '{' '}' (bindingsText balancedSample ",\n".toList) ∧
      defaults (functionText "Card".toList balancedSample ",\n".toList ") \x7b".toList)
        "Card".toList = [("gap".toList, "'\x7b4px\x7d, or 0'".toList)] := by
  have hname : Text.isIdent "Card".toList = true := by decide
  have hlead : IsGap "\n  // a \x7bunit\x7d, isn't it\n  ".toList :=
    .comment (w := "\n  ".toList) (c := " a \x7bunit\x7d, isn't it".toList) (by decide) (by decide)
      (by decide) (.blanks (by decide))
  have hgap : IsExpression ('\'' :: ("\x7b4px\x7d, or 0".toList ++ ['\''])) :=
    isExpression_quoted rfl (isBody_of_all (by decide)) (by decide)
  have hbindings : ∀ b ∈ balancedSample, b.WellFormed := by
    rw [balancedSample, List.forall_mem_cons, List.forall_mem_singleton]
    exact ⟨⟨hlead, by decide, by simpa using hgap⟩, ⟨.blanks (by decide), by decide, by simp⟩⟩
  have hending : IsEnding ",\n".toList := .inr ⟨['\n'], rfl, .blanks (by decide)⟩
  have hnames : (balancedSample.map Binding.name).Nodup := by decide
  have hbalanced : Balanced '{' '}' (bindingsText balancedSample ",\n".toList) :=
    Bracket.body?_append_iff.1 (show _ = some (_, []) by decide +kernel)
  exact ⟨⟨hname, hbindings, hending, hnames⟩, hbalanced,
    (defaults_functionText hname hbindings hending hnames).2 hbalanced⟩

/-- A closing brace in a string, with no other half. -/
def unbalancedSample : List Binding :=
  [⟨"\n  ".toList, "close".toList, some "'\x7d'".toList⟩,
    ⟨"\n  ".toList, "tone".toList, some "'calm'".toList⟩]

/-- The parameter ends in the string for its reader, and the second default is lost. -/
theorem defaults_functionText_unbalanced :
    (Text.isIdent "Card".toList = true ∧ (∀ b ∈ unbalancedSample, b.WellFormed) ∧
        IsEnding ",\n".toList ∧ (unbalancedSample.map Binding.name).Nodup) ∧
      functionText "Card".toList unbalancedSample ",\n".toList ": CardProps) \x7b\x7d".toList =
        "function Card(\x7b\n  close = '\x7d',\n  tone = 'calm',\n\x7d: CardProps) \x7b\x7d".toList ∧
      defaults (functionText "Card".toList unbalancedSample ",\n".toList
          ": CardProps) \x7b\x7d".toList) "Card".toList = [("close".toList, ['\''])] ∧
      unbalancedSample.filterMap Binding.default =
        [("close".toList, "'\x7d'".toList), ("tone".toList, "'calm'".toList)] := by
  have hexpression : ∀ b : Text, b.all (fun c => c ≠ '\'' && c ≠ '\\' && c ≠ '\n') = true →
      IsExpression ('\'' :: (b ++ ['\''])) := fun b hb => by
    simp only [List.all_eq_true, Bool.and_eq_true] at hb
    refine isExpression_quoted rfl (isBody_of_all ?_) fun hline => ?_
    · exact List.all_eq_true.2 fun c hc => Bool.and_eq_true_iff.2 (hb c hc).1
    · exact absurd (hb _ hline).2 (by decide)
  have hbindings : ∀ b ∈ unbalancedSample, b.WellFormed := by
    rw [unbalancedSample, List.forall_mem_cons, List.forall_mem_singleton]
    exact ⟨⟨.blanks (by decide), by decide, by simpa using hexpression ['}'] (by decide)⟩,
      ⟨.blanks (by decide), by decide, by simpa using hexpression "calm".toList (by decide)⟩⟩
  exact ⟨⟨by decide, hbindings, .inr ⟨['\n'], rfl, .blanks (by decide)⟩, by decide⟩,
    by decide +kernel, by decide +kernel, by decide +kernel⟩

end PropCatalog.Component
