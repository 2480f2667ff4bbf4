/-!
# Tables of character ranges

A property of characters that no formula gives is stored as a table of closed
ranges of code points.  Every table of this library covers the characters from
`U+0080` on; the first 128 characters are decided by a formula beside it.
-/

namespace NameRecovery.Text

/-- Closed ranges of code points, in ascending order. -/
abbrev Ranges := Array (Nat × Nat)

/-- Is the code point of `c` in one of the ranges? -/
def Ranges.has (table : Ranges) (c : Char) : Bool :=
  table.any fun range => range.1 ≤ c.toNat && c.toNat ≤ range.2

end NameRecovery.Text
