import PropCatalog.Text.Basic
import PropCatalog.Text.Numeric

/-!
# Relaxed notation for arrays and objects

Source code writes arrays and objects more freely than JSON does: strings may stand in single
quotes, keys may be bare words, and a comma may follow the last item. `Relaxed.toJson` puts those
into the form of JSON; text that is wrong in other ways stays wrong.
-/

namespace PropCatalog.Literal.Relaxed

/-- A character a bare word can start with. -/
def isWordStart (c : Char) : Bool :=
  Text.isAlphabetic c || c = '_' || c = '$'

/-- A character a bare word can go on with. -/
def isWordRest (c : Char) : Bool :=
  Text.isAlphanumeric c || c = '_' || c = '$'

/-- The first character of a text that is not blank. -/
def firstInk? (s : Text) : Option Char :=
  s.find? fun c => !Text.isBlank c

/-- The body of a string with the given quote, made fit for double quotes and with its closing
quote, and the text after the string. A string that is not closed has no closing quote. -/
def string (quote : Char) : Text → Text × Text
  | [] => ([], [])
  | ['\\'] => (['\\'], [])
  | '\\' :: c :: s =>
    let (body, rest) := string quote s
    (if c = '\'' then '\'' :: body else '\\' :: c :: body, rest)
  | c :: s =>
    if c = quote then (['"'], s)
    else
      let (body, rest) := string quote s
      (if c = '"' then '\\' :: '"' :: body else c :: body, rest)

theorem string_length (quote : Char) (s : Text) : (string quote s).2.length ≤ s.length := by
  fun_induction string quote s <;> grind

/-- The text with its strings in double quotes, its bare keys quoted and its last commas dropped. -/
def toJson (s : Text) : Text :=
  match s with
  | [] => []
  | c :: s =>
    if c = '\'' || c = '"' then '"' :: (string c s).1 ++ toJson (string c s).2
    else if c = ',' then
      if firstInk? s = some ']' || firstInk? s = some '}' then toJson s else ',' :: toJson s
    else if isWordStart c then
      let word := c :: s.takeWhile isWordRest
      let rest := s.dropWhile isWordRest
      if firstInk? rest = some ':' then '"' :: word ++ '"' :: toJson rest else word ++ toJson rest
    else c :: toJson s
termination_by s.length
decreasing_by
  all_goals
    have hstring := string_length c s
    have hword := (List.dropWhile_suffix isWordRest (l := s)).length_le
    simp only [List.length_cons]
    omega

end PropCatalog.Literal.Relaxed
