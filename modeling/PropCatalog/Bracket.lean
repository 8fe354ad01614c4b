import PropCatalog.Text.Basic

/-!
# Brackets

Two ways to follow nesting. `Bracket.close?` follows one kind of bracket and finds the closer that
matches an opener already read. `Bracket.depth` follows all three kinds together as a counter that
never goes below zero, which is what the splitters use to tell separators inside brackets from
those outside.
-/

namespace PropCatalog.Bracket

def isOpener (c : Char) : Bool :=
  c = '{' || c = '[' || c = '('

def isCloser (c : Char) : Bool :=
  c = '}' || c = ']' || c = ')'

/-- The depth after the character `c`, met at depth `d`. A closer at depth zero has no effect. -/
def depth (d : Nat) (c : Char) : Nat :=
  if isOpener c then d + 1 else if isCloser c then d - 1 else d

/-- Reads up to the closer that matches an opener already read, inside `d` further pairs. The
answer is the text before that closer and the text after it. A character that is both opener and
closer opens. -/
def close? (opener closer : Char) : (d : Nat) → Text → Option (Text × Text)
  | _, [] => none
  | d, c :: s =>
    if c = opener then (close? opener closer (d + 1) s).map fun (a, b) => (c :: a, b)
    else if c = closer then
      match d with
      | 0 => some ([], s)
      | d + 1 => (close? opener closer d s).map fun (a, b) => (c :: a, b)
    else (close? opener closer d s).map fun (a, b) => (c :: a, b)

/-- The text that was read is the answer around the closer. -/
theorem close?_eq_some {opener closer : Char} {d : Nat} {s a b : Text}
    (h : close? opener closer d s = some (a, b)) : s = a ++ closer :: b := by
  fun_induction close? opener closer d s generalizing a with
  | case1 => simp at h
  | case2 d s ih =>
    obtain ⟨⟨a', b'⟩, hs, hab⟩ := Option.map_eq_some_iff.1 h
    obtain ⟨rfl, rfl⟩ := Prod.mk.inj hab
    simp [ih hs]
  | case3 => simp_all
  | case4 s d _ ih =>
    obtain ⟨⟨a', b'⟩, hs, hab⟩ := Option.map_eq_some_iff.1 h
    obtain ⟨rfl, rfl⟩ := Prod.mk.inj hab
    simp [ih hs]
  | case5 d c s _ _ ih =>
    obtain ⟨⟨a', b'⟩, hs, hab⟩ := Option.map_eq_some_iff.1 h
    obtain ⟨rfl, rfl⟩ := Prod.mk.inj hab
    simp [ih hs]

/-- The body up to the brace that closes one already read, and what follows that brace. -/
def body? (s : Text) : Option (Text × Text) :=
  close? '{' '}' 0 s

/-- The byte position just past the closer that matches an opener ending at byte `start`. There is
none when the closer is missing or `start` is not a position of the text. -/
def closeAt? (content : Text) (start : Nat) (opener closer : Char) : Option Nat := do
  let (_, rest) ← Text.splitAtByte? start content
  let (inner, _) ← close? opener closer 0 rest
  return start + Text.utf8Length inner + closer.utf8Size

/-- The position just past the matching closer, or the length of the text when there is none. -/
def closeAt (content : Text) (start : Nat) (opener closer : Char) : Nat :=
  (closeAt? content start opener closer).getD (Text.utf8Length content)

end PropCatalog.Bracket
