/-!
# The plain characters of names

The heuristics work on printed text and look only at plain names: those made of
ASCII letters, digits, the dollar sign and the underscore.
-/

namespace NameRecovery.Text

/-- A character of a plain name that can also start one. -/
def isNameStart (c : Char) : Bool :=
  c.isAlpha || c == '$' || c == '_'

/-- A character of a plain name. -/
def isNameChar (c : Char) : Bool :=
  isNameStart c || c.isDigit

/-- A character of the number at the end of a name. -/
def isSuffixChar (c : Char) : Bool :=
  c.isDigit || c == '_'

/-- A few characters of a plain name, at least one and at most `size`, and a number
of any length after them. -/
def isNumberedName (size : Nat) (cs : List Char) : Bool :=
  !cs.isEmpty && cs.all isNameChar && (cs.drop size).all isSuffixChar

end NameRecovery.Text
