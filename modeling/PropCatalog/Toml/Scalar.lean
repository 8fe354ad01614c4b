import PropCatalog.Toml.Value

/-!
# TOML scalars

Strings in their four forms, numbers, truth values, dates and times. Control characters other than
the tab may not occur in strings and comments, and a carriage return only before a newline.

An integer whose digits are in groups is taken as it is written as long as its underscores stand
between digits; whether it has a value is asked by who needs the value.
-/

namespace PropCatalog.Toml

/-- A control character that may not occur in a line. -/
def isControl (c : Char) : Bool :=
  (c.toNat < 0x20 && c != '\t') || c = '\x7f'

/-! ## Strings -/

def hexValue? (digits : Text) : Option Nat :=
  digits.foldlM (fun n c =>
    if '0' ≤ c && c ≤ '9' then some (n * 16 + (c.toNat - 48))
    else if 'a' ≤ c && c ≤ 'f' then some (n * 16 + (c.toNat - 87))
    else if 'A' ≤ c && c ≤ 'F' then some (n * 16 + (c.toNat - 55))
    else none) 0

/-- The character of a code point, which may not be a surrogate. -/
def charOf? (n : Nat) : Option Char :=
  if n < 0xD800 || (0xE000 ≤ n && n < 0x110000) then some (Char.ofNat n) else none

/-- Reads an escape after its backslash; the answer is the character and how many characters it is
written with. -/
def escape? : Text → Option (Char × Nat)
  | 'b' :: _ => some ('\x08', 1)
  | 't' :: _ => some ('\t', 1)
  | 'n' :: _ => some ('\n', 1)
  | 'e' :: _ => some ('\x1b', 1)
  | 'f' :: _ => some ('\x0c', 1)
  | 'r' :: _ => some ('\r', 1)
  | '"' :: _ => some ('"', 1)
  | '\\' :: _ => some ('\\', 1)
  | 'x' :: a :: b :: _ => ((hexValue? [a, b]).bind charOf?).map fun ch => (ch, 3)
  | 'u' :: a :: b :: c :: d :: _ => ((hexValue? [a, b, c, d]).bind charOf?).map fun ch => (ch, 5)
  | 'U' :: a :: b :: c :: d :: e :: f :: g :: h :: _ =>
    ((hexValue? [a, b, c, d, e, f, g, h]).bind charOf?).map fun ch => (ch, 9)
  | _ => none

/-- The rest of a string in double quotes, after `skip` characters that are already read. -/
def basicString? (skip : Nat) : Text → Option (Text × Text)
  | [] => none
  | c :: s =>
    match skip with
    | skip + 1 => basicString? skip s
    | 0 =>
      if c = '"' then some ([], s)
      else if c = '\\' then
        match escape? s with
        | none => none
        | some (ch, n) => (basicString? n s).map fun (body, rest) => (ch :: body, rest)
      else if isControl c then none
      else (basicString? 0 s).map fun (body, rest) => (c :: body, rest)

/-- The rest of a string in single quotes, in which nothing is escaped. -/
def literalString? : Text → Option (Text × Text)
  | [] => none
  | c :: s =>
    if c = '\'' then some ([], s)
    else if isControl c then none
    else (literalString? s).map fun (body, rest) => (c :: body, rest)

/-- Text without a newline at its head. -/
def skipNewline : Text → Text
  | '\n' :: s => s
  | '\r' :: '\n' :: s => s
  | s => s

/-- Reads the end of a string in triple quotes at a run of at least three quotes: up to two quotes
before the last three belong to the string. -/
def tripleEnd? (quote : Char) (s : Text) : Option (Text × Text) :=
  let run := min 5 (s.takeWhile (· = quote)).length
  if 3 ≤ run then some (List.replicate (run - 3) quote, s.drop run) else none

/-- The rest of a string in three single quotes. -/
def literalLines? : Text → Option (Text × Text)
  | [] => none
  | c :: s =>
    match tripleEnd? '\'' (c :: s) with
    | some result => some result
    | none =>
      if c = '\r' && s.head? != some '\n' then none
      else if isControl c && c != '\n' && c != '\r' then none
      else (literalLines? s).map fun (body, rest) => (c :: body, rest)

/-- The number of blanks and newlines at the head of a text. A carriage return counts only before a
newline. -/
def foldLength : Text → Nat
  | [] => 0
  | '\r' :: '\n' :: s => foldLength s + 2
  | c :: s => if c = ' ' || c = '\t' || c = '\n' then foldLength s + 1 else 0

/-- The number of characters to skip after a backslash at the end of a line: the blanks up to the
newline, which must come, and the blanks and newlines after it. -/
def lineFold? (s : Text) : Option Nat :=
  let rest := s.dropWhile fun c => c = ' ' || c = '\t'
  if rest.head? = some '\n' || (rest.head? = some '\r' && rest[1]? = some '\n') then
    some (foldLength s)
  else none

/-- The rest of a string in three double quotes, after `skip` characters that are already read. -/
def basicLines? (skip : Nat) : Text → Option (Text × Text)
  | [] => none
  | c :: s =>
    match skip with
    | skip + 1 => basicLines? skip s
    | 0 =>
      match tripleEnd? '"' (c :: s) with
      | some result => some result
      | none =>
        if c = '\\' then
          match lineFold? s with
          | some n => basicLines? n s
          | none =>
            match escape? s with
            | none => none
            | some (ch, n) => (basicLines? n s).map fun (body, rest) => (ch :: body, rest)
        else if c = '\r' && s.head? != some '\n' then none
        else if isControl c && c != '\n' && c != '\r' then none
        else (basicLines? 0 s).map fun (body, rest) => (c :: body, rest)

/-- Reads a string of one line, as keys may be. -/
def lineString? : Text → Option (Text × Text)
  | '"' :: s => basicString? 0 s
  | '\'' :: s => literalString? s
  | _ => none

def string? : Text → Option (Text × Text)
  | '"' :: '"' :: '"' :: s => basicLines? 0 (skipNewline s)
  | '\'' :: '\'' :: '\'' :: s => literalLines? (skipNewline s)
  | s => lineString? s

/-! ## Numbers -/

/-- Text without a sign at its head. -/
def unsigned : Text → Text
  | '+' :: s => s
  | '-' :: s => s
  | s => s

def digitsValue (s : Text) : Nat :=
  s.foldl (fun n c => n * 10 + (c.toNat - 48)) 0

def isHexDigit (c : Char) : Bool :=
  c.isDigit || ('a' ≤ c && c ≤ 'f') || ('A' ≤ c && c ≤ 'F')

/-- The underscores of a number stand between digits: every group after the first one starts with a
digit, and every group before the last one ends with one. So none follows a sign. -/
def isGrouped (isDigit : Char → Bool) (s : Text) : Bool :=
  let groups := Text.pieces (· = '_') s
  groups.tail.all (fun group => group.head?.any isDigit) &&
    groups.dropLast.all (fun group => group.getLast?.any isDigit)

/-- Reads the integer of a literal in another base, which may lack digits altogether. -/
def prefixed? (base : Nat) (isDigit : Char → Bool) (digits : Text) : Option Value :=
  if digits.all (fun c => isDigit c || c = '_') && isGrouped isDigit digits then
    some (.integer base (digits.filter (· ≠ '_')))
  else none

/-- Reads a decimal integer with an optional sign. After an underscore anything but a point or an
exponent is kept. -/
def decimalInteger? (s : Text) : Option Value :=
  let rest := (unsigned s).dropWhile Char.isDigit
  let hasLeadingZero := (unsigned s).head? = some '0' && (unsigned s).length != 1
  let isWhole := rest.isEmpty && !(unsigned s).isEmpty
  let isInGroups := rest.head? = some '_' && !rest.any fun c => c = '.' || c = 'e' || c = 'E'
  if (isWhole || isInGroups) && !hasLeadingZero && isGrouped isHexDigit s then
    some (.integer 10 (s.filter (· ≠ '_')))
  else none

def integer? : Text → Option Value
  | '0' :: 'x' :: s => prefixed? 16 isHexDigit s
  | '0' :: 'o' :: s => prefixed? 8 (fun c => '0' ≤ c && c ≤ '7') s
  | '0' :: 'b' :: s => prefixed? 2 (fun c => c = '0' || c = '1') s
  | s => decimalInteger? s

/-- Digits and underscores, with a digit among them. -/
def hasDigits (s : Text) : Bool :=
  s.any Char.isDigit && s.all fun c => c.isDigit || c = '_'

/-- The written form of a float: an integer with a fraction, an exponent or both, an infinity, or
`nan`. -/
def isFloat (written : Text) : Bool :=
  let s := unsigned written
  if s = "inf".toList || s = "nan".toList then true
  else
    let whole := s.takeWhile fun c => c.isDigit || c = '_'
    let rest := s.drop whole.length
    let isExponent (s : Text) : Bool :=
      match s with
      | c :: s => (c = 'e' || c = 'E') && hasDigits (unsigned s)
      | [] => false
    let hasLeadingZero := whole.head? = some '0' && 1 < (whole.filter Char.isDigit).length
    hasDigits whole && !hasLeadingZero && isGrouped Char.isDigit written &&
      match rest with
      | '.' :: rest =>
        let fraction := rest.takeWhile fun c => c.isDigit || c = '_'
        let rest := rest.drop fraction.length
        hasDigits fraction && (rest.isEmpty || isExponent rest)
      | rest => isExponent rest

/-! ## Dates and times -/

/-- The number of exactly `n` digits at the head, and what follows. -/
def fixedDigits? (n : Nat) (s : Text) : Option (Nat × Text) :=
  let digits := s.take n
  if digits.length = n && digits.all Char.isDigit then some (digitsValue digits, s.drop n)
  else none

def daysIn (year month : Nat) : Nat :=
  if month = 2 then
    if year % 4 = 0 && (year % 100 != 0 || year % 400 = 0) then 29 else 28
  else if month = 4 || month = 6 || month = 9 || month = 11 then 30
  else 31

/-- Reads a date `YYYY-MM-DD`; the answer is what follows. -/
def date? (s : Text) : Option Text := do
  let (year, s) ← fixedDigits? 4 s
  let (month, s) ← fixedDigits? 2 (← Text.after? ['-'] s)
  let (day, s) ← fixedDigits? 2 (← Text.after? ['-'] s)
  if 1 ≤ month && month ≤ 12 && 1 ≤ day && day ≤ daysIn year month then return s else none

/-- Reads the seconds of a time, with an optional fraction; the answer is what follows. -/
def seconds? (s : Text) : Option Text := do
  let (second, s) ← fixedDigits? 2 s
  if 60 < second then none
  else
    match s with
    | '.' :: s =>
      if (s.takeWhile Char.isDigit).isEmpty then none else return s.dropWhile Char.isDigit
    | s => return s

/-- Reads a time `HH:MM` or `HH:MM:SS`; the answer is what follows. -/
def time? (s : Text) : Option Text := do
  let (hour, s) ← fixedDigits? 2 s
  let (minute, s) ← fixedDigits? 2 (← Text.after? [':'] s)
  if 23 < hour || 59 < minute then none
  else
    match s with
    | ':' :: s => seconds? s
    | s => return s

/-- The text is an offset from universal time, or empty. -/
def isOffset (s : Text) : Bool :=
  match s with
  | [] => true
  | ['Z'] => true
  | ['z'] => true
  | c :: s =>
    (c = '+' || c = '-') &&
      match fixedDigits? 2 s with
      | some (hour, ':' :: s) =>
        match fixedDigits? 2 s with
        | some (minute, []) => hour ≤ 23 && minute ≤ 59
        | _ => false
      | _ => false

/-- The text is a date, a time, or a date and a time with an optional offset. -/
def isDateTime (s : Text) : Bool :=
  match date? s with
  | some [] => true
  | some (c :: rest) =>
    (c = 'T' || c = 't' || c = ' ') &&
      match time? rest with
      | some rest => isOffset rest
      | none => false
  | none => time? s = some []

/-! ## Values of one word -/

/-- A character of a word: all but blanks, newlines, the start of a comment and the marks between
values. -/
def isAtom (c : Char) : Bool :=
  !" \t\r\n#=,[]\x7b\x7d".toList.contains c

/-- The word at the head of a text; a date takes in the time that follows after one space. -/
def atom (s : Text) : Text × Text :=
  let word := s.takeWhile isAtom
  let rest := s.dropWhile isAtom
  match date? word, rest with
  | some [], ' ' :: c :: rest' =>
    if c.isDigit then
      (word ++ ' ' :: (c :: rest').takeWhile isAtom, (c :: rest').dropWhile isAtom)
    else (word, rest)
  | _, _ => (word, rest)

def atomValue? (word : Text) : Option Value :=
  if word = "true".toList then some (.boolean true)
  else if word = "false".toList then some (.boolean false)
  else
    match integer? word with
    | some value => some value
    | none =>
      if isFloat word then some (.float word)
      else if isDateTime word then some (.dateTime word)
      else none

end PropCatalog.Toml
