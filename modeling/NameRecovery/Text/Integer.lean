import NameRecovery.Text.Blank
import NameRecovery.Text.Letter

/-!
# Integers as people write them

An integer may have a sign, digits of any script, single low lines between
digits, and blanks around it.  The four information separators, which are blank
in free-form text, are not blank here.
-/

namespace NameRecovery.Text

/-- The value of a decimal digit of any script.  Digits stand in runs that start
with zero. -/
def digitValue? (c : Char) : Option Nat :=
  if c.toNat < 128 then
    if c.isDigit then some (c.toNat - 48) else none
  else
    (digitRanges.find? fun range => range.1 ≤ c.toNat && c.toNat ≤ range.2).map fun range =>
      (c.toNat - range.1) % 10

/-- The digits of a number, with at most one low line between two of them. -/
def digits? : List Char → Option (List Nat)
  | [] => none
  | [c] => do return [← digitValue? c]
  | c :: '_' :: rest => do return (← digitValue? c) :: (← digits? rest)
  | c :: rest => do return (← digitValue? c) :: (← digits? rest)

/-- The most digits a number may have. -/
def maxDigits : Nat := 4300

/-- A number without a sign. -/
def natural? (cs : List Char) : Option Nat := do
  let digits ← digits? cs
  if digits.length ≤ maxDigits then
    return digits.foldl (fun n d => n * 10 + d) 0
  else none

/-- A blank that may stand around an integer. -/
def isPadding (c : Char) : Bool :=
  isBlank c && !(28 ≤ c.toNat && c.toNat ≤ 31)

/-- Without the padding at both ends. -/
def unpadded (cs : List Char) : List Char :=
  ((cs.dropWhile isPadding).reverse.dropWhile isPadding).reverse

/-- The integer a text describes. -/
def integer? (s : String) : Option Int :=
  match unpadded s.toList with
  | '-' :: cs => (natural? cs).map fun n => -(n : Int)
  | '+' :: cs => (natural? cs).map Int.ofNat
  | cs => (natural? cs).map Int.ofNat

end NameRecovery.Text
