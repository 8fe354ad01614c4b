import PropCatalog.Text.Basic

/-!
# UTF-8

Texts as bytes and back. Bytes are read as a sequence of characters and of ill-formed parts, where
an ill-formed part is the longest start of a character that cannot be completed, or a byte that
starts none. A strict reading has no such part; a repair puts U+FFFD in the place of each.
-/

namespace PropCatalog.Text

/-- The bytes of a text. -/
def toUtf8 (s : Text) : List UInt8 :=
  s.flatMap String.utf8EncodeChar

/-- The start of a character: the number of bytes that are missing, the range of the next one, and
the value of the bits so far. -/
structure Partial where
  /-- One less than the number of bytes that are missing. -/
  moreAfterNext : Nat
  low : Nat
  high : Nat
  value : Nat

/-- What a byte is at the start of a character: parts that are complete, and the start of a longer
character. -/
def leadByte (b : Nat) : List (Option Char) × Option Partial :=
  if b < 0x80 then ([some (Char.ofNat b)], none)
  else if b < 0xC2 then ([none], none)
  else if b < 0xE0 then ([], some ⟨0, 0x80, 0xBF, b - 0xC0⟩)
  else if b = 0xE0 then ([], some ⟨1, 0xA0, 0xBF, 0⟩)
  else if b = 0xED then ([], some ⟨1, 0x80, 0x9F, 13⟩)
  else if b < 0xF0 then ([], some ⟨1, 0x80, 0xBF, b - 0xE0⟩)
  else if b = 0xF0 then ([], some ⟨2, 0x90, 0xBF, 0⟩)
  else if b < 0xF4 then ([], some ⟨2, 0x80, 0xBF, b - 0xF0⟩)
  else if b = 0xF4 then ([], some ⟨2, 0x80, 0x8F, 4⟩)
  else ([none], none)

/-- What a byte completes, and the character it leaves open. A byte that does not go on with the
open character makes that one ill-formed and starts anew. -/
def takeByte (state : Option Partial) (b : Nat) : List (Option Char) × Option Partial :=
  match state with
  | none => leadByte b
  | some p =>
    if p.low ≤ b && b ≤ p.high then
      let value := p.value * 64 + (b - 0x80)
      match p.moreAfterNext with
      | 0 => ([some (Char.ofNat value)], none)
      | more + 1 => ([], some ⟨more, 0x80, 0xBF, value⟩)
    else
      let (parts, state) := leadByte b
      (none :: parts, state)

/-- The characters of bytes, with nothing in the place of each ill-formed part. -/
def readUtf8 (state : Option Partial) : List UInt8 → List (Option Char)
  | [] => if state.isSome then [none] else []
  | b :: rest =>
    let (parts, state) := takeByte state b.toNat
    parts ++ readUtf8 state rest

/-- The text of well-formed bytes. -/
def ofUtf8? (bytes : List UInt8) : Option Text :=
  (readUtf8 none bytes).mapM id

/-- The text of bytes, with U+FFFD in the place of each ill-formed part. -/
def repairUtf8 (bytes : List UInt8) : Text :=
  (readUtf8 none bytes).map fun c => c.getD '\ufffd'

end PropCatalog.Text
