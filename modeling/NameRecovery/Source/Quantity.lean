import NameRecovery.Decimal.Shortest
import NameRecovery.Source.Token

/-!
# The values of numbers

A number with a base is a whole number of any size.  A decimal number is the
nearest double-precision number, which counts as a whole number if it is one.
-/

namespace NameRecovery.Source

/-- The value of a number. -/
inductive Quantity where
  /-- A whole number. -/
  | whole (n : Nat)
  /-- A fraction, or a number that is too large. -/
  | real (x : Float)

namespace Quantity

/-- The value of digits in a base. -/
def ofDigits (base : Nat) (digits : List Char) : Nat :=
  digits.foldl (fun n c => n * base + (hexValue? c).getD 0) 0

/-- The whole number a double-precision number is equal to, if there is one. -/
def whole? (x : Float) : Option Nat :=
  let bits := x.toBits.toNat
  if bits / Decimal.twoTo 52 % Decimal.twoTo 11 = 2047 then none
  else
    let b := Decimal.Binary.ofBits bits
    let n := b.mantissa * Decimal.twoTo b.exponent.toNat
    let unit := Decimal.twoTo (-b.exponent).toNat
    if n % unit = 0 then some (n / unit) else none

/-- The value of a double-precision number that is not negative. -/
def ofFloat (x : Float) : Quantity :=
  match whole? x with
  | some n => .whole n
  | none => .real x

/-- The value of an exponent with its sign. -/
def exponentOf : List Char → Int
  | '-' :: digits => -(ofDigits 10 digits : Int)
  | '+' :: digits => ofDigits 10 digits
  | digits => ofDigits 10 digits

/-- The value of a decimal number. -/
def ofDecimal (cs : List Char) : Quantity :=
  let whole := cs.takeWhile Char.isDigit
  let behind := cs.drop whole.length
  let fraction := if behind.head? = some '.' then (behind.drop 1).takeWhile Char.isDigit else []
  let exponent := (cs.dropWhile fun c => c ≠ 'e' ∧ c ≠ 'E').drop 1
  ofFloat (Decimal.toFloat (ofDigits 10 (whole ++ fraction)) (exponentOf exponent - fraction.length))

/-- The value of a number by its spelling; `octal` marks the old octal spelling. -/
def ofSpelling (raw : String) (octal : Bool) : Quantity :=
  match raw.toList with
  | '0' :: mark :: digits =>
    if mark = 'x' ∨ mark = 'X' then .whole (ofDigits 16 digits)
    else if mark = 'b' ∨ mark = 'B' then .whole (ofDigits 2 digits)
    else if mark = 'o' ∨ mark = 'O' then .whole (ofDigits 8 digits)
    else if octal then .whole (ofDigits 8 (mark :: digits))
    else ofDecimal ('0' :: mark :: digits)
  | cs => ofDecimal cs

/-- Is it nothing? -/
def isZero : Quantity → Bool
  | .whole n => n == 0
  | .real _ => false

/-- The most digits a whole number may have in a message. -/
def maxDigits : Nat := 4300

/-- Has the value more digits than a message may hold? -/
def isTooLong : Quantity → Bool
  | .whole n => decide (Decimal.tenTo maxDigits ≤ n)
  | .real _ => false

/-- The value in a message. -/
def text : Quantity → String
  | .whole n => toString n
  | .real x => Decimal.render ⟨"nan", "inf"⟩ x

end Quantity

/-- The value of a token that is a number. -/
def Token.quantity? (token : Token) : Option Quantity :=
  match token.lexeme with
  | .number octal => some (.ofSpelling token.raw octal)
  | _ => none

end NameRecovery.Source
