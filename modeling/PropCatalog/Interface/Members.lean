import PropCatalog.Bracket

/-!
# Members of an interface body

A member ends at a `;` or a newline outside brackets, so that object, tuple and function types stay
in one piece. Blank pieces and pieces that start like a comment are no members.
-/

namespace PropCatalog.Interface

/-- The pieces of a body between the semicolons and newlines at depth zero, for a body that is
entered at depth `d`. -/
def memberPieces : (d : Nat) → Text → List Text
  | _, [] => [[]]
  | d, c :: s =>
    let d := Bracket.depth d c
    if d = 0 && (c = ';' || c = '\n') then [] :: memberPieces d s
    else Text.consFirst c (memberPieces d s)

/-- Whether a piece starts like a comment or like an inner line of a block comment. -/
def isComment (piece : Text) : Bool :=
  Text.startsWith ['/', '/'] piece || Text.startsWith ['/', '*'] piece ||
    Text.startsWith ['*'] piece

/-- The members of an interface body, in order and without the blanks around them. -/
def members (body : Text) : List Text :=
  ((memberPieces 0 body).map Text.trim).filter fun piece => !piece.isEmpty && !isComment piece

end PropCatalog.Interface
