/-!
# Blank characters

The property White_Space of the Unicode Character Database. Blanks separate words, surround trimmed
text and are what `strip`-like operations remove; the byte order mark and the zero width space are
not among them.
-/

namespace PropCatalog.Text

/-- A character with the property White_Space. -/
def isBlank (c : Char) : Bool :=
  c = ' ' || ('\t' ≤ c && c ≤ '\r') || c = '\u0085' || c = '\u00a0' || c = '\u1680' ||
    ('\u2000' ≤ c && c ≤ '\u200a') || c = '\u2028' || c = '\u2029' || c = '\u202f' ||
    c = '\u205f' || c = '\u3000'

/-- Text without the blanks at its head. -/
def trimStart (s : List Char) : List Char :=
  s.dropWhile isBlank

/-- Text without the blanks at its end. -/
def trimEnd (s : List Char) : List Char :=
  (s.reverse.dropWhile isBlank).reverse

def trim (s : List Char) : List Char :=
  trimEnd (trimStart s)

end PropCatalog.Text
