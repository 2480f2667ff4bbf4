import NameRecovery.Source.Escape

/-!
# The pieces of a pattern

Before the pattern of a regular expression is looked at, its numeric escapes are
resolved, wherever they stand.  What is left is a list of codes, in which half of
a surrogate pair may stand alone.  A code and the backslash before it are one
`Piece`.
-/

namespace NameRecovery.Source.Pattern

/-! ## Codes -/

/-- The code that stands for all characters beyond the first plane. -/
def farCode : Nat := 0xffff

/-- The code of a numeric escape at the start of a text, and the number of
characters of the escape. -/
def numericEscape? : List Char → Option (Nat × Nat)
  | '\\' :: 'u' :: '{' :: rest =>
    let digits := rest.takeWhile isHex
    if !digits.isEmpty && (rest.drop digits.length).head? == some '}' then
      some (hexNumber digits, digits.length + 4)
    else none
  | '\\' :: 'u' :: rest =>
    let digits := (rest.take 4).takeWhile isHex
    if digits.length = 4 then some (hexNumber digits, 6) else none
  | _ => none

/-- The codes of a text, the first `skip` characters apart.  A numeric escape that
stands for no character is refused. -/
def codesAfter? : Nat → List Char → Option (List Nat)
  | _, [] => some []
  | skip + 1, _ :: cs => codesAfter? skip cs
  | 0, c :: cs =>
    match numericEscape? (c :: cs) with
    | none => do return Text.codeOf c :: (← codesAfter? 0 cs)
    | some (code, size) =>
      if 0x10ffff < code then none
      else do return min code farCode :: (← codesAfter? (size - 1) cs)

/-- Every surrogate pair as one code. -/
def joinPairs : List Nat → List Nat
  | high :: low :: rest =>
    if 0xd800 ≤ high ∧ high < 0xdc00 ∧ 0xdc00 ≤ low ∧ low < 0xe000 then
      farCode :: joinPairs rest
    else high :: joinPairs (low :: rest)
  | codes => codes

/-! ## Pieces -/

/-- A piece of a pattern. -/
inductive Piece where
  /-- A code that stands for itself or is an operator. -/
  | plain (code : Nat)
  /-- A code behind a backslash. -/
  | escaped (code : Nat)
  deriving Repr, DecidableEq

/-- The code of the backslash. -/
def backslash : Nat := 92

/-- The pieces of a list of codes; a backslash cannot stand at the end. -/
def piecesOf? : List Nat → Option (List Piece)
  | [] => some []
  | [code] => if code = backslash then none else some [.plain code]
  | code :: next :: rest =>
    if code = backslash then do return .escaped next :: (← piecesOf? rest)
    else do return .plain code :: (← piecesOf? (next :: rest))

/-- The pieces of a pattern. -/
def pieces? (pattern : List Char) : Option (List Piece) := do
  piecesOf? (joinPairs (← codesAfter? 0 pattern))

namespace Piece

/-- Is the piece the given character? -/
def isChar (piece : Piece) (c : Char) : Bool :=
  piece == .plain c.toNat

/-- Is the piece one of the given characters? -/
def isOneOf (piece : Piece) (cs : List Char) : Bool :=
  cs.any piece.isChar

/-- The codes of a piece. -/
def codes : Piece → List Nat
  | .plain code => [code]
  | .escaped code => [backslash, code]

/-- The character a piece stands for, unless it is escaped or half of a pair. -/
def char? : Piece → Option Char
  | .plain code => if (Char.ofNat code).toNat = code then some (Char.ofNat code) else none
  | .escaped _ => none

end Piece

end NameRecovery.Source.Pattern
