import PropCatalog.Interface.Table
import PropCatalog.Proofs.Text.Classes
import PropCatalog.Proofs.Text.Occurrence
import PropCatalog.Proofs.Text.Runs

/-!
# Declarations in a source text

Two readers look for the heads of interface declarations: the table takes one head after the other,
and goes on behind each, while the lookup of a name searches the text from its start for a head with
that name. A head is described here without them (`IsHead`), and both recognise it
(`declaration?_eq_some_iff`, `headOf?_eq_some_iff`).

No head starts inside another one (`IsHead.silent`): the word `interface` and the blanks after it
are followed by a name, but after the name of a head come blanks and a brace. So nothing is lost
when the table goes on behind a head, and a lookup finds the first declaration of its name in the
list of all of them (`search_headOf?`).
-/

namespace PropCatalog

namespace Text

variable {s name rest : Text}

theorem afterBlanks?_eq {α : Type} {k : Text → Option α}
    (hk : ∀ c s, isBlank c = true → k (c :: s) = none) (s : Text) :
    afterBlanks? k s = if s.head?.any isBlank then k (trimStart s) else none := by
  induction s with
  | nil => rfl
  | cons c s ih =>
    by_cases hc : isBlank c = true
    · have htrim : trimStart (c :: s) = trimStart s := List.dropWhile_cons_of_pos hc
      have hhead : (c :: s).head?.any isBlank = true := by simpa using hc
      rw [afterBlanks?, if_pos hc, ih, htrim, if_pos hhead]
      by_cases hs : s.head?.any isBlank = true
      · -- a shorter run would leave a blank
        obtain ⟨d, s, rfl⟩ : ∃ d t, s = d :: t := by
          cases s with
          | nil => cases hs
          | cons d t => exact ⟨d, t, rfl⟩
        rw [if_pos hs, hk d s (by simpa using hs)]
        cases k (trimStart (d :: s)) <;> rfl
      · have hnone : ([] : Text).all isBlank = true := rfl
        have hstay : trimStart s = s := trimStart_append hnone (Bool.not_eq_true _ ▸ hs)
        rw [if_neg hs, hstay]
    · simp [afterBlanks?, hc]

theorem ident?_append (hname : isIdent name = true) (hrest : rest.head?.any isIdentRest = false) :
    ident? (name ++ rest) = some (name, rest) := by
  cases name with
  | nil => cases hname
  | cons c name =>
    obtain ⟨hc, hall⟩ := Bool.and_eq_true_iff.1 hname
    obtain ⟨htake, hdrop⟩ := span_append (List.all_eq_true.1 hall) hrest
    rw [List.cons_append, ident?, if_pos hc, htake, hdrop]

theorem head?_of_isIdent (hname : isIdent name = true) :
    ∃ c, name.head? = some c ∧ isIdentStart c = true ∧ isBlank c = false := by
  cases name with
  | nil => cases hname
  | cons c name =>
    obtain ⟨hc, -⟩ := Bool.and_eq_true_iff.1 hname
    exact ⟨c, rfl, hc, isBlank_of_isIdentStart hc⟩

theorem isIdentRest_of_mem {c : Char} (hname : isIdent name = true) (hc : c ∈ name) :
    isIdentRest c = true := by
  cases name with
  | nil => cases hc
  | cons n name =>
    obtain ⟨hn, hall⟩ := Bool.and_eq_true_iff.1 hname
    rcases List.mem_cons.1 hc with rfl | hc
    · exact isIdentRest_of_isIdentStart hn
    · exact List.all_eq_true.1 hall c hc

theorem after?_eq_none_of_isBlank {c : Char} (hname : isIdent name = true) (hc : isBlank c = true)
    (s : Text) : after? name (c :: s) = none := by
  obtain ⟨n, hn, -, hblank⟩ := head?_of_isIdent hname
  rw [Option.eq_none_iff_forall_ne_some]
  intro rest hrest
  have hhead := congrArg List.head? (after?_eq_some_iff.1 hrest)
  rw [List.head?_append, hn] at hhead
  obtain rfl := Option.some.inj hhead
  rw [hblank] at hc
  cases hc

/-- At every character of `p` in the text `p ++ s`, the text from there on satisfies `P`. -/
def Along (P : Text → Prop) (p s : Text) : Prop :=
  ∀ a b, p = a ++ b → b ≠ [] → P (b ++ s)

theorem Along.nil (P : Text → Prop) (s : Text) : Along P [] s := by
  intro a b hab hb
  exact absurd (List.append_eq_nil_iff.1 hab.symm).2 hb

theorem Along.append {P : Text → Prop} {p q : Text} (hp : Along P p (q ++ s)) (hq : Along P q s) :
    Along P (p ++ q) s := by
  intro a b hab hb
  rcases List.append_eq_append_iff.1 hab with ⟨c, rfl, rfl⟩ | ⟨c, rfl, rfl⟩
  · exact hq c b rfl hb
  · cases c with
    | nil => exact hq [] q rfl hb
    | cons d c =>
      rw [List.append_assoc]
      exact hp a (d :: c) rfl (by simp)

theorem search_eq_of_eq_some {α : Type} {m : Option Char → Text → Option α} {before : Option Char}
    {a : α} (h : m before s = some a) : search m before s = some ([], a) := by
  cases s with
  | nil => rw [search, h, Option.map_some]
  | cons c s => rw [search, h]

theorem search_append {α : Type} {m : Option Char → Text → Option α} {p : Text}
    (h : ∀ a b, p = a ++ b → b ≠ [] → ∀ before, m before (b ++ s) = none) (before : Option Char) :
    search m before (p ++ s) = (search m (p.getLast?.or before) s).map
      fun (skipped, a) => (p ++ skipped, a) := by
  induction p generalizing before with
  | nil =>
    rw [List.nil_append, List.getLast?_nil, Option.none_or]
    cases search m before s <;> rfl
  | cons c p ih =>
    have hhere : m before (c :: (p ++ s)) = none := h [] (c :: p) rfl (by simp) before
    rw [List.cons_append, search, hhere, getLast?_cons_or]
    simp only
    rw [ih fun a b hp => h (c :: a) b (by rw [hp, List.cons_append]), Option.map_map]
    rfl

/-- The place that is found is the first one: where the recogniser accepts and, at no character
before it, has accepted. -/
theorem search_eq_some_iff {α : Type} {m : Option Char → Text → Option α} {before : Option Char}
    {p : Text} {x : α} : search m before s = some (p, x) ↔
      ∃ rest, s = p ++ rest ∧ m (p.getLast?.or before) rest = some x ∧
        ∀ a b, p = a ++ b → b ≠ [] → m (a.getLast?.or before) (b ++ rest) = none := by
  induction s generalizing before p with
  | nil =>
    rw [search, Option.map_eq_some_iff]
    constructor
    · rintro ⟨y, hy, heq⟩
      obtain ⟨rfl, rfl⟩ := Prod.mk.inj heq
      exact ⟨[], rfl, hy, fun a b hab hb => absurd (List.append_eq_nil_iff.1 hab.symm).2 hb⟩
    · rintro ⟨rest, hs, hx, -⟩
      obtain ⟨rfl, rfl⟩ := List.append_eq_nil_iff.1 hs.symm
      exact ⟨x, hx, rfl⟩
  | cons c s ih =>
    rw [search]
    cases hhere : m before (c :: s) with
    | some y =>
      constructor
      · intro h
        obtain ⟨rfl, rfl⟩ := Prod.mk.inj (Option.some.inj h)
        exact ⟨c :: s, rfl, hhere, fun a b hab hb => absurd (List.append_eq_nil_iff.1 hab.symm).2 hb⟩
      · rintro ⟨rest, hs, hx, hnone⟩
        cases p with
        | nil =>
          obtain rfl : c :: s = rest := hs
          obtain rfl : y = x := Option.some.inj (hhere.symm.trans hx)
          rfl
        | cons d p =>
          -- a later place is not found, since the recogniser accepts already here
          have hpass := hnone [] (d :: p) rfl (by simp)
          rw [← hs, List.getLast?_nil, Option.none_or, hhere] at hpass
          cases hpass
    | none =>
      -- nothing is accepted here, so the place is that of the rest
      simp only [Option.map_eq_some_iff, Prod.mk.injEq, Prod.exists]
      constructor
      · rintro ⟨p, y, hs, rfl, rfl⟩
        obtain ⟨rest, rfl, hy, hnone⟩ := ih.1 hs
        refine ⟨rest, rfl, by rw [getLast?_cons_or, hy], fun a b hab hb => ?_⟩
        cases a with
        | nil =>
          obtain rfl : c :: p = b := hab
          exact hhere
        | cons d a =>
          obtain ⟨rfl, htail⟩ := List.cons.inj hab
          rw [getLast?_cons_or]
          exact hnone a b htail hb
      · rintro ⟨rest, hs, hx, hnone⟩
        cases p with
        | nil =>
          obtain rfl : c :: s = rest := hs
          rw [List.getLast?_nil, Option.none_or, hhere] at hx
          cases hx
        | cons d p =>
          obtain ⟨rfl, htail⟩ := List.cons.inj hs
          rw [getLast?_cons_or] at hx
          refine ⟨p, x, ih.2 ⟨rest, htail, hx, fun a b hab hb => ?_⟩, rfl, rfl⟩
          rw [← getLast?_cons_or]
          exact hnone (c :: a) b (by rw [hab, List.cons_append]) hb

theorem search_eq_none_iff {α : Type} {m : Option Char → Text → Option α} {before : Option Char} :
    search m before s = none ↔ ∀ a b, s = a ++ b → m (a.getLast?.or before) b = none := by
  induction s generalizing before with
  | nil =>
    rw [search, Option.map_eq_none_iff]
    constructor
    · rintro h a b hab
      obtain ⟨rfl, rfl⟩ := List.append_eq_nil_iff.1 hab.symm
      exact h
    · exact fun h => h [] [] rfl
  | cons c s ih =>
    rw [search]
    cases hhere : m before (c :: s) with
    | some x =>
      refine iff_of_false (by rintro ⟨⟩) fun h => ?_
      have hpass := h [] (c :: s) rfl
      rw [List.getLast?_nil, Option.none_or, hhere] at hpass
      cases hpass
    | none =>
      rw [Option.map_eq_none_iff, ih]
      constructor
      · intro h a b hab
        cases a with
        | nil =>
          obtain rfl : c :: s = b := hab
          exact hhere
        | cons d a =>
          obtain ⟨rfl, htail⟩ := List.cons.inj hab
          rw [getLast?_cons_or]
          exact h a b htail
      · intro h a b hab
        rw [← getLast?_cons_or]
        exact h (c :: a) b (by rw [hab, List.cons_append])

end Text

namespace Interface

variable {before : Option Char} {s name rest : Text}

/-! ## Heads -/

/-- The word that starts a declaration. -/
def keyword : Text := "interface".toList

/-- A text starts with the head of a declaration of `name`, and `rest` follows the opening brace. -/
structure IsHead (before : Option Char) (s name rest : Text) : Prop where
  boundary : Text.isBoundary before s = true
  isIdent : Text.isIdent name = true
  spelled : ∃ blanks blanks' : Text, blanks ≠ [] ∧ blanks.all Text.isBlank = true ∧
    blanks'.all Text.isBlank = true ∧
    s = keyword ++ (blanks ++ (name ++ (blanks' ++ '{' :: rest)))

theorem openBrace?_eq_some_iff : openBrace? s = some rest ↔
    ∃ blanks : Text, blanks.all Text.isBlank = true ∧ s = blanks ++ '{' :: rest := by
  rw [openBrace?, Text.after?_eq_some_iff]
  constructor
  · intro h
    obtain ⟨blanks, hblanks, hs⟩ := Text.exists_blanks_append_trimStart s
    exact ⟨blanks, hblanks, by rw [hs, h]; rfl⟩
  · rintro ⟨blanks, hblanks, rfl⟩
    exact Text.trimStart_append hblanks rfl

theorem head?_blanks_brace {blanks : Text} (hblanks : blanks.all Text.isBlank = true) :
    (blanks ++ '{' :: rest).head?.any Text.isIdentRest = false := by
  cases blanks with
  | nil => rfl
  | cons c blanks =>
    exact Text.isIdentRest_of_isBlank (List.all_eq_true.1 hblanks c (by simp))

theorem afterWord?_eq_some_iff {α : Type} {word : Text} {k : Text → Option α} {a : α}
    (hk : ∀ c s, Text.isBlank c = true → k (c :: s) = none) :
    (Text.after? word s).bind (Text.afterBlanks? k) = some a ↔
      ∃ blanks t : Text, blanks ≠ [] ∧ blanks.all Text.isBlank = true ∧
        s = word ++ (blanks ++ t) ∧ k t = some a := by
  constructor
  · intro h
    obtain ⟨t, ht, h⟩ := Option.bind_eq_some_iff.1 h
    obtain ⟨blanks, u, rfl, hne, hblanks, hu⟩ := Text.afterBlanks?_eq_some h
    exact ⟨blanks, u, hne, hblanks, Text.after?_eq_some_iff.1 ht, hu⟩
  · rintro ⟨blanks, t, hne, hblanks, rfl, ht⟩
    have hfirst : t.head?.any Text.isBlank = false := by
      cases t with
      | nil => rfl
      | cons c t =>
        by_contra hc
        rw [hk c t (by simpa using hc)] at ht
        cases ht
    obtain ⟨c, blanks, rfl⟩ := List.exists_cons_of_ne_nil hne
    have hc : Text.isBlank c = true := List.all_eq_true.1 hblanks c (by simp)
    rw [Text.after?_append, Option.bind_some, Text.afterBlanks?_eq hk,
      Text.trimStart_append hblanks hfirst, if_pos (by simpa using hc)]
    exact ht

/-- The table recognises the heads. -/
theorem declaration?_eq_some_iff :
    declaration? before s = some (name, rest) ↔ IsHead before s name rest := by
  unfold declaration?
  split
  next hboundary =>
    have hreject : ∀ c t, Text.isBlank c = true → Text.ident? (c :: t) = none := by
      intro c t hc
      rw [Text.ident?, if_neg (by simp [Text.isIdentStart_of_isBlank hc])]
    rw [show "interface".toList = keyword from rfl,
      afterWord?_eq_some_iff fun c t hc => by rw [hreject c t hc]; rfl]
    constructor
    · rintro ⟨blanks, t, hne, hblanks, rfl, h⟩
      obtain ⟨⟨ident, u⟩, hident, h⟩ := Option.bind_eq_some_iff.1 h
      obtain ⟨body, hbody, heq⟩ := Option.bind_eq_some_iff.1 h
      obtain ⟨rfl, rfl⟩ := Prod.mk.inj (Option.some.inj heq)
      obtain ⟨rfl, hname⟩ := Text.ident?_eq_some hident
      obtain ⟨blanks', hblanks', rfl⟩ := openBrace?_eq_some_iff.1 hbody
      exact ⟨hboundary, hname, blanks, blanks', hne, hblanks, hblanks', rfl⟩
    · rintro ⟨-, hname, blanks, blanks', hne, hblanks, hblanks', rfl⟩
      refine ⟨blanks, _, hne, hblanks, rfl, ?_⟩
      have hbody : openBrace? (blanks' ++ '{' :: rest) = some rest :=
        openBrace?_eq_some_iff.2 ⟨blanks', hblanks', rfl⟩
      rw [Text.ident?_append hname (head?_blanks_brace hblanks')]
      change (openBrace? (blanks' ++ '{' :: rest)).bind (fun body => some (name, body)) = _
      rw [hbody]
      rfl
  next hboundary =>
    constructor
    · intro h
      cases h
    · exact fun h => absurd h.boundary hboundary

theorem headOf?_eq_some_iff (hname : Text.isIdent name = true) :
    headOf? name before s = some rest ↔ IsHead before s name rest := by
  unfold headOf?
  split
  next hboundary =>
    have hreject : ∀ c t, Text.isBlank c = true →
        (Text.after? name (c :: t)).bind openBrace? = none := by
      intro c t hc
      rw [Text.after?_eq_none_of_isBlank hname hc, Option.bind_none]
    rw [show "interface".toList = keyword from rfl, afterWord?_eq_some_iff hreject]
    constructor
    · rintro ⟨blanks, t, hne, hblanks, rfl, h⟩
      obtain ⟨u, hu, hbody⟩ := Option.bind_eq_some_iff.1 h
      obtain ⟨blanks', hblanks', rfl⟩ := openBrace?_eq_some_iff.1 hbody
      obtain rfl := Text.after?_eq_some_iff.1 hu
      exact ⟨hboundary, hname, blanks, blanks', hne, hblanks, hblanks', rfl⟩
    · rintro ⟨-, -, blanks, blanks', hne, hblanks, hblanks', rfl⟩
      refine ⟨blanks, _, hne, hblanks, rfl, ?_⟩
      rw [Text.after?_append, Option.bind_some]
      exact openBrace?_eq_some_iff.2 ⟨blanks', hblanks', rfl⟩
  next hboundary =>
    constructor
    · intro h
      cases h
    · exact fun h => absurd h.boundary hboundary

theorem IsHead.eq {before' : Option Char} {name' rest' : Text} (h : IsHead before s name rest)
    (h' : IsHead before' s name' rest') : name = name' ∧ rest = rest' := by
  have hsame : IsHead before s name' rest' := ⟨h.boundary, h'.isIdent, h'.spelled⟩
  exact Prod.mk.inj (Option.some.inj
    ((declaration?_eq_some_iff.2 h).symm.trans (declaration?_eq_some_iff.2 hsame)))

/-! ## Where no head starts -/

/-- No head starts at a character of `p` in the text `p ++ s`. -/
def Silent (p s : Text) : Prop :=
  ∀ a b, p = a ++ b → b ≠ [] → ∀ before name rest, ¬ IsHead before (b ++ s) name rest

/-- A text that does not start with a head. -/
def Headless (s : Text) : Prop := ∀ before name rest, ¬ IsHead before s name rest

theorem Silent.nil (s : Text) : Silent [] s :=
  Text.Along.nil Headless s

theorem Silent.append {p q s : Text} (hp : Silent p (q ++ s)) (hq : Silent q s) :
    Silent (p ++ q) s :=
  Text.Along.append (P := Headless) hp hq

theorem IsHead.keyword_then_name (h : IsHead before s name rest) :
    s.head? = some 'i' ∧ s.takeWhile Text.isIdentRest = keyword ∧
      (Text.trimStart (s.dropWhile Text.isIdentRest)).head?.any Text.isIdentStart = true := by
  obtain ⟨blanks, blanks', hne, hblanks, -, rfl⟩ := h.spelled
  obtain ⟨n, hn, hstart, hblank⟩ := Text.head?_of_isIdent h.isIdent
  obtain ⟨c, blanks, rfl⟩ := List.exists_cons_of_ne_nil hne
  have hc : Text.isBlank c = true := List.all_eq_true.1 hblanks c (by simp)
  have hstop : ¬ Text.isIdentRest c = true := by simp [Text.isIdentRest_of_isBlank hc]
  have hword : ∀ d ∈ keyword, Text.isIdentRest d = true := List.all_eq_true.1 (by decide)
  have hname : (name ++ (blanks' ++ '{' :: rest)).head? = some n := by simp [hn]
  refine ⟨rfl, ?_, ?_⟩
  · rw [List.takeWhile_append_of_pos hword, List.cons_append, List.takeWhile_cons_of_neg hstop,
      List.append_nil]
  · rw [List.dropWhile_append_of_pos hword, List.cons_append, List.dropWhile_cons_of_neg hstop,
      ← List.cons_append, Text.trimStart_append hblanks (by simp [hname, hblank]), hname]
    exact hstart

theorem silent_of_notMem {p : Text} (hp : 'i' ∉ p) (s : Text) : Silent p s := by
  rintro a b rfl hb before name rest hhead
  obtain ⟨c, b, rfl⟩ := List.exists_cons_of_ne_nil hb
  obtain rfl := Option.some.inj hhead.keyword_then_name.1
  exact hp (by simp)

theorem silent_of_word {p : Text} (hp : ∀ c ∈ p, Text.isIdentRest c = true)
    (hend : s.head?.any Text.isIdentRest = false)
    (hnext : (Text.trimStart s).head?.any Text.isIdentStart = false) : Silent p s := by
  rintro a b rfl hb before name rest hhead
  obtain ⟨-, -, hname⟩ := hhead.keyword_then_name
  have hall : ∀ c ∈ b, Text.isIdentRest c = true := fun c hc => hp c (List.mem_append_right a hc)
  have hstop : s.dropWhile Text.isIdentRest = s := by
    cases s with
    | nil => rfl
    | cons d s => exact List.dropWhile_cons_of_neg (by simpa using hend)
  rw [List.dropWhile_append_of_pos hall, hstop, hnext] at hname
  cases hname

theorem silent_of_not_infix {p : Text} (hp : ¬ keyword <:+: p)
    (hend : ∀ c ∈ s.head?, c ∉ keyword) : Silent p s := by
  rintro a b rfl hb before name rest hhead
  obtain ⟨blanks, blanks', -, -, -, hs⟩ := hhead.spelled
  have hpre : keyword <+: b ++ s := hs ▸ List.prefix_append _ _
  -- a head that starts here has its whole keyword before the character that the keyword has not
  have hbefore : keyword <+: b := by
    cases s with
    | nil => simpa using hpre
    | cons c s => exact Text.prefix_of_prefix_append_cons (hend c rfl) hpre
  exact hp (hbefore.isInfix.trans (List.suffix_append a b).isInfix)

theorem IsHead.silent (h : IsHead before s name rest) :
    ∃ p, s = 'i' :: (p ++ rest) ∧ p.getLast? = some '{' ∧ Silent p rest := by
  obtain ⟨blanks, blanks', -, hblanks, hblanks', rfl⟩ := h.spelled
  have hnotBlank : ∀ {w : Text}, w.all Text.isBlank = true → 'i' ∉ w := by
    intro w hw hmem
    exact absurd (List.all_eq_true.1 hw _ hmem) (by decide)
  have hword : Silent "nterface".toList (blanks ++ (name ++ (blanks' ++ ['{'])) ++ rest) :=
    silent_of_notMem (by decide) _
  have hname : Silent name (blanks' ++ ['{'] ++ rest) := by
    -- after the name come blanks and a brace, and no name
    refine silent_of_word (fun c => Text.isIdentRest_of_mem h.isIdent) ?_ ?_
    · rw [List.append_assoc]
      exact head?_blanks_brace hblanks'
    · rw [List.append_assoc, Text.trimStart_append hblanks' rfl]
      rfl
  have hbrace : Silent (blanks' ++ ['{']) rest :=
    (silent_of_notMem (hnotBlank hblanks') _).append (silent_of_notMem (by decide) _)
  -- the keyword, the name and the brace, one behind the other
  refine ⟨"nterface".toList ++ (blanks ++ (name ++ (blanks' ++ ['{']))), ?_, ?_, ?_⟩
  · have hkeyword : keyword = 'i' :: "nterface".toList := rfl
    rw [hkeyword]
    simp only [List.cons_append, List.append_assoc, List.nil_append]
  · rw [← List.append_assoc, ← List.append_assoc, ← List.append_assoc, List.getLast?_concat]
  · exact hword.append ((silent_of_notMem (hnotBlank hblanks) _).append (hname.append hbrace))

/-! ## The list of all declarations -/

theorem declarations_append {p : Text} (h : Silent p s) (before : Option Char) :
    declarations before (p ++ s) = declarations (p.getLast?.or before) s := by
  induction p generalizing before with
  | nil => rw [List.nil_append, List.getLast?_nil, Option.none_or]
  | cons c p ih =>
    have hhere : declaration? before (c :: (p ++ s)) = none := by
      rw [Option.eq_none_iff_forall_ne_some]
      rintro ⟨name, rest⟩ hhead
      exact h [] (c :: p) rfl (by simp) before name rest (declaration?_eq_some_iff.1 hhead)
    rw [List.cons_append, declarations, hhere, Text.getLast?_cons_or]
    exact ih (fun a b hp => h (c :: a) b (by rw [hp, List.cons_append])) (some c)

theorem declarations_of_isHead (h : IsHead before s name rest) :
    declarations before s = (name, rest) :: declarations (some '{') rest := by
  have hhead := declaration?_eq_some_iff.2 h
  obtain ⟨p, rfl, -⟩ := h.silent
  rw [declarations]
  split
  next name' rest' hfound =>
    obtain ⟨rfl, rfl⟩ := Prod.mk.inj (Option.some.inj (hhead.symm.trans hfound))
    rfl
  next hnone =>
    rw [hhead] at hnone
    cases hnone

/-- A lookup finds the first declaration of its name. -/
theorem search_headOf? (hname : Text.isIdent name = true) (before : Option Char) (s : Text) :
    (Text.search (headOf? name) before s).map Prod.snd = (declarations before s).lookup name := by
  have hnone : ∀ {before : Option Char} {t : Text},
      (∀ rest, ¬ IsHead before t name rest) → headOf? name before t = none := by
    intro before t ht
    rw [Option.eq_none_iff_forall_ne_some]
    exact fun rest hrest => ht rest ((headOf?_eq_some_iff hname).1 hrest)
  fun_induction declarations before s with
  | case1 before =>
    rw [Text.search, hnone fun rest h => ?_]
    · rfl
    · obtain ⟨p, hp, -⟩ := h.silent
      cases hp
  | case2 before c s first rest hfound ih =>
    have hhead := declaration?_eq_some_iff.1 hfound
    rw [List.lookup_cons]
    by_cases hsame : name = first
    · subst hsame
      rw [Text.search, (headOf?_eq_some_iff hname).2 hhead]
      simp
    · -- the head has another name, and no head starts inside it
      obtain ⟨p, hp, hlast, hsilent⟩ := hhead.silent
      rw [hp] at hhead ⊢
      have hpass : ∀ a b, 'i' :: p = a ++ b → b ≠ [] → ∀ before,
          headOf? name before (b ++ rest) = none := by
        intro a b hab hb before
        refine hnone fun rest' hrest' => ?_
        cases a with
        | nil =>
          obtain rfl : 'i' :: p = b := hab
          exact hsame (hrest'.eq hhead).1
        | cons d a => exact hsilent a b (List.cons.inj hab).2 hb before name rest' hrest'
      have hfirst : (name == first) = false := by simpa using hsame
      rw [← List.cons_append, Text.search_append hpass, hfirst, Option.map_map]
      have hprev : ('i' :: p).getLast?.or before = some '{' := by
        simp [List.getLast?_cons, hlast]
      rw [hprev]
      exact ih
  | case3 before c s hfound ih =>
    have hhere : headOf? name before (c :: s) = none := by
      refine hnone fun rest h => ?_
      rw [declaration?_eq_some_iff.2 h] at hfound
      cases hfound
    rw [Text.search, hhere]
    simp only
    rw [Option.map_map]
    exact ih

/-! ## Looking up a name -/

/-- The properties in the body that a text starts with; none if the body is not closed. -/
def properties? (s : Text) : Option (List Property) :=
  (Bracket.body? s).map fun (body, _) => (members body).filterMap Property.ofMember?

theorem find?_eq_lookup (hname : Text.isIdent name = true) (content : Text) :
    find? content name = ((declarations none content).lookup name).bind properties? := by
  rw [← search_headOf? hname, find?]
  cases Text.search (headOf? name) none content with
  | none => rfl
  | some found =>
    obtain ⟨skipped, rest⟩ := found
    simp only [Option.map_some, Option.bind_some, Option.bind_eq_bind, properties?]
    cases Bracket.body? rest <;> rfl

theorem find?_declaration (hname : Text.isIdent name = true) (s : Text) :
    find? (keyword ++ ' ' :: (name ++ ' ' :: '{' :: s)) name = properties? s := by
  have hhead : IsHead none (keyword ++ ' ' :: (name ++ ' ' :: '{' :: s)) name s :=
    ⟨rfl, hname, [' '], [' '], by simp, rfl, rfl, rfl⟩
  rw [find?_eq_lookup hname, declarations_of_isHead hhead, List.lookup_cons, beq_self_eq_true]
  rfl

theorem isIdent_of_mem_declarations {before : Option Char} {s : Text}
    (h : (name, rest) ∈ declarations before s) : Text.isIdent name = true := by
  fun_induction declarations before s with
  | case1 => cases h
  | case2 before c s first rest' hfound ih =>
    rcases List.mem_cons.1 h with heq | h
    · obtain ⟨rfl, rfl⟩ := Prod.mk.inj heq
      exact (declaration?_eq_some_iff.1 hfound).isIdent
    · exact ih h
  | case3 before c s hfound ih => exact ih h

end Interface

end PropCatalog
