import PropCatalog.Text.Blank

/-!
# Text

A text is the list of its characters. Every reader in this library recurses on it, and a position is
the length in UTF-8 bytes of the text before it. The operations here cut a text at a position, at
the first or last occurrence of another text, and at separators.
-/

namespace PropCatalog

/-- A text, as the list of its characters. -/
abbrev Text := List Char

namespace Text

/-- The number of bytes of a text in UTF-8. -/
def utf8Length : Text → Nat
  | [] => 0
  | c :: s => c.utf8Size + utf8Length s

@[simp] theorem utf8Length_append (a b : Text) :
    utf8Length (a ++ b) = utf8Length a + utf8Length b := by
  induction a with
  | nil => simp [utf8Length]
  | cons c a ih => simp [utf8Length, ih, Nat.add_assoc]

/-- The two parts of a text around the byte position `n`; none if the position lies past the end
or inside a character. -/
def splitAtByte? : Nat → Text → Option (Text × Text)
  | 0, s => some ([], s)
  | _ + 1, [] => none
  | n + 1, c :: s =>
    if n + 1 < c.utf8Size then none
    else (splitAtByte? (n + 1 - c.utf8Size) s).map fun (a, b) => (c :: a, b)

/-- The two parts make up the text, and the first one has the length asked for. -/
theorem splitAtByte?_eq_some {n : Nat} {s a b : Text} (h : splitAtByte? n s = some (a, b)) :
    s = a ++ b ∧ utf8Length a = n := by
  fun_induction splitAtByte? n s generalizing a with
  | case1 s => simp_all [utf8Length]
  | case2 => simp at h
  | case3 => simp at h
  | case4 n c s hc ih =>
    obtain ⟨⟨a', b'⟩, hs, hab⟩ := Option.map_eq_some_iff.1 h
    obtain ⟨rfl, rfl⟩ := Prod.mk.inj hab
    obtain ⟨rfl, hn⟩ := ih hs
    exact ⟨rfl, by simp only [utf8Length]; omega⟩

/-- What follows `head` in a text that starts with it. -/
def after? : (head s : Text) → Option Text
  | [], s => some s
  | _ :: _, [] => none
  | a :: head, c :: s => if a = c then after? head s else none

theorem after?_eq_some_iff {head s rest : Text} : after? head s = some rest ↔ s = head ++ rest := by
  induction head generalizing s with
  | nil => simp [after?]
  | cons a head ih =>
    cases s with
    | nil => simp [after?]
    | cons c s =>
      by_cases h : a = c
      · simp [after?, h, ih]
      · simp [after?, h, Ne.symm h]

@[simp] theorem after?_append (head s : Text) : after? head (head ++ s) = some s :=
  after?_eq_some_iff.2 rfl

def startsWith (head s : Text) : Bool :=
  (after? head s).isSome

theorem startsWith_iff {head s : Text} : startsWith head s = true ↔ head <+: s := by
  simp only [startsWith, Option.isSome_iff_exists, after?_eq_some_iff]
  exact ⟨fun ⟨rest, h⟩ => ⟨rest, h.symm⟩, fun ⟨rest, h⟩ => ⟨rest, h.symm⟩⟩

/-- What precedes `tail` in a text that ends with it. -/
def before? (tail s : Text) : Option Text :=
  (after? tail.reverse s.reverse).map List.reverse

theorem before?_eq_some_iff {tail s rest : Text} :
    before? tail s = some rest ↔ s = rest ++ tail := by
  simp only [before?, Option.map_eq_some_iff, after?_eq_some_iff]
  constructor
  · rintro ⟨r, h, rfl⟩
    have := congrArg List.reverse h
    simpa using this
  · rintro rfl
    exact ⟨rest.reverse, by simp, by simp⟩

/-- The two parts of a text around the first occurrence of `needle`. -/
def cut? (needle : Text) : Text → Option (Text × Text)
  | [] => if needle = [] then some ([], []) else none
  | c :: s =>
    match after? needle (c :: s) with
    | some rest => some ([], rest)
    | none => (cut? needle s).map fun (a, b) => (c :: a, b)

theorem cut?_eq_some {needle s a b : Text} (h : cut? needle s = some (a, b)) :
    s = a ++ needle ++ b := by
  fun_induction cut? needle s generalizing a with
  | case1 => simp_all
  | case2 => simp at h
  | case3 c s rest hrest =>
    obtain ⟨rfl, rfl⟩ := Prod.mk.inj (Option.some.inj h)
    simpa using after?_eq_some_iff.1 hrest
  | case4 c s _ ih =>
    obtain ⟨⟨a', b'⟩, hs, hab⟩ := Option.map_eq_some_iff.1 h
    obtain ⟨rfl, rfl⟩ := Prod.mk.inj hab
    simp [ih hs]

/-- The two parts of a text around the last occurrence of `needle`. -/
def cutLast? (needle : Text) : Text → Option (Text × Text)
  | [] => if needle = [] then some ([], []) else none
  | c :: s =>
    match cutLast? needle s with
    | some (a, b) => some (c :: a, b)
    | none => (after? needle (c :: s)).map fun rest => ([], rest)

theorem cutLast?_eq_some {needle s a b : Text} (h : cutLast? needle s = some (a, b)) :
    s = a ++ needle ++ b := by
  fun_induction cutLast? needle s generalizing a with
  | case1 => simp_all
  | case2 => simp at h
  | case3 c s a' b' hs ih =>
    obtain ⟨rfl, rfl⟩ := Prod.mk.inj (Option.some.inj h)
    simp [ih hs]
  | case4 c s _ ih =>
    obtain ⟨rest, hrest, hab⟩ := Option.map_eq_some_iff.1 h
    obtain ⟨rfl, rfl⟩ := Prod.mk.inj hab
    simpa using after?_eq_some_iff.1 hrest

def contains (needle s : Text) : Bool :=
  (cut? needle s).isSome

/-- Puts a character in front of the first piece. -/
def consFirst (c : Char) : List Text → List Text
  | [] => [[c]]
  | piece :: pieces => (c :: piece) :: pieces

/-- The pieces of a text between the characters that satisfy `p`; one more than there are
separators. -/
def pieces (p : Char → Bool) : Text → List Text
  | [] => [[]]
  | c :: s => if p c then [] :: pieces p s else consFirst c (pieces p s)

/-- The lines of a text, each with its newline; the last one may have none. -/
def lines : Text → List Text
  | [] => []
  | c :: s => if c = '\n' then [c] :: lines s else consFirst c (lines s)

theorem flatten_consFirst (c : Char) (pieces : List Text) :
    (consFirst c pieces).flatten = c :: pieces.flatten := by
  cases pieces <;> simp [consFirst]

/-- Nothing is lost when a text is taken apart into lines. -/
theorem flatten_lines (s : Text) : (lines s).flatten = s := by
  induction s with
  | nil => rfl
  | cons c s ih => by_cases h : c = '\n' <;> simp [lines, h, ih, flatten_consFirst]

/-- The texts one after the other, with `separator` between them. -/
def join (separator : Text) : List Text → Text
  | [] => []
  | [s] => s
  | s :: rest => s ++ separator ++ join separator rest

/-- Drops a non-empty run of blanks, the longest first, so that `k` accepts what follows. -/
def afterBlanks? {α : Type} (k : Text → Option α) : Text → Option α
  | [] => none
  | c :: s =>
    if isBlank c then
      match afterBlanks? k s with
      | some a => some a
      | none => k s
    else none

theorem afterBlanks?_eq_some {α : Type} {k : Text → Option α} {s : Text} {a : α}
    (h : afterBlanks? k s = some a) :
    ∃ blanks rest, s = blanks ++ rest ∧ blanks ≠ [] ∧ blanks.all isBlank ∧ k rest = some a := by
  induction s with
  | nil => cases h
  | cons c s ih =>
    rw [afterBlanks?] at h
    split at h
    next hc =>
      split at h
      next b hb =>
        obtain rfl := Option.some.inj h
        obtain ⟨blanks, rest, rfl, -, hblanks, hrest⟩ := ih hb
        exact ⟨c :: blanks, rest, rfl, by simp, by simp [hc, hblanks], hrest⟩
      next => exact ⟨[c], s, rfl, by simp, by simp [hc], h⟩
    next => cases h

/-- The first place of a text where `m` accepts, with the text before it. The recogniser `m` sees
the character before the place and the text from there on. -/
def search {α : Type} (m : Option Char → Text → Option α) (before : Option Char) :
    Text → Option (Text × α)
  | [] => (m before []).map fun a => ([], a)
  | c :: s =>
    match m before (c :: s) with
    | some a => some ([], a)
    | none => (search m (some c) s).map fun (skipped, a) => (c :: skipped, a)

end Text

end PropCatalog
