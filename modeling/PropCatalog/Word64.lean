/-!
# Words of 64 bits

The bounds of the integers that fit into 64 bits, with and without a sign.
-/

namespace PropCatalog.Word64

/-- The number of words: every natural number below it fits into a word without a sign. -/
def limit : Nat := 18446744073709551616

/-- Half the number of words: a word with a sign reaches from minus this number up to the number
before it. -/
def signedLimit : Nat := 9223372036854775808

end PropCatalog.Word64
