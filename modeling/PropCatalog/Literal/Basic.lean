import PropCatalog.Json.Reader
import PropCatalog.Literal.Relaxed

/-!
# Literals

The default of a parameter is an expression. If it is a literal - a quoted string, an array or an
object in relaxed notation, a truth value or a number - it is evaluated to a JSON value. Every other
expression is kept as its text.
-/

namespace PropCatalog

/-- The outcome of evaluating an expression. -/
inductive Literal where
  | evaluated (value : Json.Value)
  /-- The text of an expression that is no literal. -/
  | unparsed (text : Text)

namespace Literal

def isEvaluated : Literal → Bool
  | evaluated _ => true
  | unparsed _ => false

/-- The value to document: an expression that is no literal is documented as a string. -/
def value : Literal → Json.Value
  | evaluated value => value
  | unparsed text => .scalar (.string text)

/-- The text of an expression, without the blanks around it and without one comma at its end. -/
def expressionText (raw : Text) : Text :=
  let s := Text.trim raw
  Text.trimEnd ((Text.before? [','] s).getD s)

/-- What stands between the quotes of a string literal: a text in which the quote does not occur,
nor `${` when the quote is a backtick. -/
def unquote? (s : Text) : Option Text := do
  let quote ← s.head?
  if quote = '\'' || quote = '"' || quote = '\x60' then
    let inner ← Text.before? [quote] s.tail
    if quote ∈ inner || (quote = '\x60' && Text.contains ['$', '{'] inner) then none
    else return inner
  else none

/-! ## Numbers -/

def isNumberChar (c : Char) : Bool :=
  c.isDigit || c = '-' || c = '+' || c = '.' || c = 'e' || c = 'E'

/-- Takes one sign; the answer is whether it is a minus sign. -/
def sign : Text → Bool × Text
  | '-' :: s => (true, s)
  | '+' :: s => (false, s)
  | s => (false, s)

/-- The integer of a sign and digits, if it fits into 64 bits. -/
def integer? (s : Text) : Option Int :=
  let (negative, digits) := sign s
  if !digits.isEmpty && digits.all Char.isDigit then
    let n := Nat.ofDigitChars 10 digits 0
    if negative then if n ≤ Word64.signedLimit then some (-n) else none
    else if n < Word64.signedLimit then some n else none
  else none

/-- The value of an exponent: nothing, or a letter, a sign and at least one digit. -/
def exponent? : Text → Option Int
  | [] => some 0
  | c :: s =>
    if c = 'e' || c = 'E' then
      let (negative, digits) := sign s
      if !digits.isEmpty && digits.all Char.isDigit then
        let n : Int := Nat.ofDigitChars 10 digits 0
        some (if negative then -n else n)
      else none
    else none

/-- The number nearest to a decimal with an optional fraction and exponent, of which the integer
part or the fraction may lack digits but not both; none if it is too large. -/
def decimal? (s : Text) : Option Binary64 := do
  let (negative, s) := sign s
  let whole := s.takeWhile Char.isDigit
  let s := s.dropWhile Char.isDigit
  let (fraction, s) := match s with
    | '.' :: s => (s.takeWhile Char.isDigit, s.dropWhile Char.isDigit)
    | s => ([], s)
  let exponent ← exponent? s
  if whole.isEmpty && fraction.isEmpty then none
  else
    Binary64.ofDecimal? negative (Nat.ofDigitChars 10 (whole ++ fraction) 0)
      (exponent - fraction.length)

/-- The number that a text denotes. Whole numbers of safe size are integers. -/
def number? (s : Text) : Option Json.Number :=
  if s.any Char.isDigit && s.all isNumberChar then
    match integer? s with
    | some n => some (.int n)
    | none => (decimal? s).map fun x => Json.Number.wholeToInt (.float x)
  else none

/-! ## Evaluation -/

/-- The value of an array or an object in relaxed notation. -/
def container? (s : Text) : Option Json.Value :=
  (Json.read? Json.Reading.nestingLimit (Relaxed.toJson s)).map Json.Value.wholeToInt

/-- Evaluates an expression without blanks around it. -/
def ofText (s : Text) : Literal :=
  match unquote? s with
  | some inner => .evaluated (.scalar (.string inner))
  | none =>
    if s.head? = some '[' || s.head? = some '{' then
      match container? s with
      | some value => .evaluated value
      | none => .unparsed s
    else if s = "true".toList then .evaluated (.scalar (.bool true))
    else if s = "false".toList then .evaluated (.scalar (.bool false))
    else
      match number? s with
      | some n => .evaluated (.scalar (.number n))
      | none => .unparsed s

def evaluate (raw : Text) : Literal :=
  ofText (expressionText raw)

end Literal

end PropCatalog
