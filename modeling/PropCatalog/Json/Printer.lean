import PropCatalog.Json.Value

/-!
# Writing JSON

Values are written without spaces. In a string the quote, the backslash and the characters below
U+0020 are escaped, by a letter where there is one; every other character stands for itself.
-/

namespace PropCatalog.Json

/-- The hexadecimal digit of a number below sixteen, in lower case. -/
def hexDigit (n : Nat) : Char :=
  if n < 10 then Char.ofNat (48 + n) else Char.ofNat (87 + n)

/-- One character inside a written string. -/
def escapeChar (c : Char) : Text :=
  if c = '"' then ['\\', '"']
  else if c = '\\' then ['\\', '\\']
  else if c = '\x08' then ['\\', 'b']
  else if c = '\x0c' then ['\\', 'f']
  else if c = '\n' then ['\\', 'n']
  else if c = '\r' then ['\\', 'r']
  else if c = '\t' then ['\\', 't']
  else if c.toNat < 0x20 then
    ['\\', 'u', '0', '0', hexDigit (c.toNat / 16), hexDigit (c.toNat % 16)]
  else [c]

/-- A written string, with its quotes. -/
def quote (s : Text) : Text :=
  '"' :: s.flatMap escapeChar ++ ['"']

def Scalar.text : Scalar → Text
  | .null => "null".toList
  | .bool true => "true".toList
  | .bool false => "false".toList
  | .number n => n.text
  | .string s => quote s

namespace Value

mutual

def text : Value → Text
  | .scalar s => s.text
  | .array items => '[' :: textItems items ++ [']']
  | .object fields => '{' :: textFields fields ++ ['}']

def textItems : List Value → Text
  | [] => []
  | [v] => text v
  | v :: rest => text v ++ ',' :: textItems rest

def textFields : List (Text × Value) → Text
  | [] => []
  | [(name, v)] => quote name ++ ':' :: text v
  | (name, v) :: rest => quote name ++ ':' :: text v ++ ',' :: textFields rest

end

end Value

end PropCatalog.Json
