import NameRecovery.Json.Basic
import NameRecovery.Decimal.Shortest
import NameRecovery.Text.Surrogate

/-!
# Reading JSON

`Json.decode` reads one value from a text.  A text that is none is refused with
the first thing that is wrong and the place where it is: the index of a
character, and its line and column counted from one.

Of fields with the same name the last one counts.  Three names of values that
are not finite numbers are accepted besides the values of the standard.
-/

namespace NameRecovery.Json

/-- What can be wrong with a text that should be JSON. -/
inductive Problem where
  /-- A value should start here. -/
  | expectedValue
  /-- The name of a field should start here. -/
  | expectedName
  /-- A colon should stand here. -/
  | expectedColon
  /-- A comma or the closing bracket should stand here. -/
  | expectedComma
  /-- The value has ended, and there is more. -/
  | extraData
  /-- The text that starts here does not end. -/
  | unterminatedText
  /-- A control character stands in a text. -/
  | controlCharacter
  /-- A backslash with a character it cannot escape. -/
  | badEscape
  /-- A numeric escape without its four digits. -/
  | badUnicodeEscape
  /-- The text starts with a byte order mark. -/
  | byteOrderMark
  /-- An integer with more digits than can be read. -/
  | tooManyDigits (count : Nat)
  deriving Repr, DecidableEq

/-- The problem in words. -/
def Problem.message : Problem → String
  | .expectedValue => "Expecting value"
  | .expectedName => "Expecting property name enclosed in double quotes"
  | .expectedColon => "Expecting ':' delimiter"
  | .expectedComma => "Expecting ',' delimiter"
  | .extraData => "Extra data"
  | .unterminatedText => "Unterminated string starting at"
  | .controlCharacter => "Invalid control character at"
  | .badEscape => "Invalid \\escape"
  | .badUnicodeEscape => "Invalid \\uXXXX escape"
  | .byteOrderMark => "Unexpected UTF-8 BOM (decode using utf-8-sig)"
  | .tooManyDigits count =>
    "Exceeds the limit (4300 digits) for integer string conversion: value has " ++
      toString count ++ " digits; use sys.set_int_max_str_digits() to increase the limit"

/-- The most digits an integer may have. -/
def maxDigits : Nat := 4300

/-- A problem at a place of a text. -/
structure DecodeError where
  /-- What is wrong. -/
  problem : Problem
  /-- The index of the character where it is wrong. -/
  index : Nat
  /-- Its line, counted from one. -/
  line : Nat
  /-- Its column, counted from one. -/
  column : Nat
  deriving Repr, DecidableEq

/-- The problem and its place in words. -/
def DecodeError.message (e : DecodeError) : String :=
  e.problem.message ++ ": line " ++ toString e.line ++ " column " ++ toString e.column ++
    " (char " ++ toString e.index ++ ")"

/-- The line and column of the character with the given index. -/
def position : List Char → Nat → Nat × Nat
  | _, 0 => (1, 1)
  | [], n => (1, n + 1)
  | c :: cs, n + 1 =>
    let (line, column) := position cs n
    if c = '\n' then (line + 1, column)
    else if line = 1 then (1, column + 1)
    else (line, column)

/-- What is left of a text, and the index of its first character. -/
structure Input where
  /-- The characters that are left. -/
  rest : List Char
  /-- The index of the first of them. -/
  index : Nat

/-- A reader: it fails with a problem and its index. -/
abbrev Reader (α : Type) := Input → Except (Problem × Nat) (α × Input)

/-- Without the first `n` characters. -/
def Input.drop (input : Input) (n : Nat) : Input :=
  ⟨input.rest.drop n, input.index + n⟩

/-- The blanks of JSON. -/
def isGap (c : Char) : Bool :=
  c == ' ' || c == '\t' || c == '\n' || c == '\r'

/-- Without the blanks at the start. -/
def Input.skipGap (input : Input) : Input :=
  input.drop (input.rest.takeWhile isGap).length

/-- The value of a digit in base sixteen. -/
def hexValue? (c : Char) : Option Nat :=
  if c.isDigit then some (c.toNat - 48)
  else if 'a' ≤ c ∧ c ≤ 'f' then some (c.toNat - 87)
  else if 'A' ≤ c ∧ c ≤ 'F' then some (c.toNat - 55)
  else none

/-- The value of four digits in base sixteen at the start of a text. -/
def unit? : List Char → Option Nat
  | a :: b :: c :: d :: _ => do
    let a ← hexValue? a
    let b ← hexValue? b
    let c ← hexValue? c
    let d ← hexValue? d
    return ((a * 16 + b) * 16 + c) * 16 + d
  | _ => none

/-- The character a backslash and a letter stand for. -/
def escaped? : Char → Option Char
  | '"' => some '"'
  | '\\' => some '\\'
  | '/' => some '/'
  | 'b' => some (Char.ofNat 8)
  | 'f' => some (Char.ofNat 12)
  | 'n' => some '\n'
  | 'r' => some '\r'
  | 't' => some '\t'
  | _ => none

/-- The numeric escape after a backslash and `u`, standing at the letter: the
character, and how many characters after the letter it takes. -/
def unicodeEscape (rest : List Char) (index : Nat) : Except (Problem × Nat) (Char × Nat) :=
  if rest.length < 6 then .error (.badUnicodeEscape, index)
  else
    match unit? (rest.drop 1) with
    | none => .error (.badUnicodeEscape, index)
    | some high =>
      let next := rest.drop 5
      if 0xd800 ≤ high ∧ high < 0xdc00 ∧ 6 < next.length ∧ next.take 2 = ['\\', 'u'] then
        match unit? (next.drop 2) with
        | none => .error (.badUnicodeEscape, index + 6)
        | some low =>
          if 0xdc00 ≤ low ∧ low < 0xe000 then
            .ok (Char.ofNat (0x10000 + (high - 0xd800) * 0x400 + (low - 0xdc00)), 10)
          else .ok (Text.charOfCode high, 4)
      else .ok (Text.charOfCode high, 4)

/-- The characters of a text up to its closing quote; `start` is the index of
the opening one. -/
def textBody (start : Nat) : Nat → List Char → Reader (List Char)
  | 0, _, _ => .error (.unterminatedText, start)
  | fuel + 1, done, input =>
    match input.rest with
    | [] => .error (.unterminatedText, start)
    | '"' :: _ => .ok (done.reverse, input.drop 1)
    | '\\' :: [] => .error (.unterminatedText, start)
    | '\\' :: 'u' :: rest =>
      match unicodeEscape ('u' :: rest) (input.index + 1) with
      | .error e => .error e
      | .ok (c, n) => textBody start fuel (c :: done) (input.drop (n + 2))
    | '\\' :: c :: _ =>
      match escaped? c with
      | none => .error (.badEscape, input.index)
      | some d => textBody start fuel (d :: done) (input.drop 2)
    | c :: _ =>
      if c.toNat < 32 then .error (.controlCharacter, input.index)
      else textBody start fuel (c :: done) (input.drop 1)

/-- A text, standing after its opening quote. -/
def readText (input : Input) : Except (Problem × Nat) (String × Input) :=
  match textBody (input.index - 1) (input.rest.length + 1) [] input with
  | .error e => .error e
  | .ok (cs, input) => .ok (String.ofList cs, input)

/-- The digits as a number. -/
def digitsValue (digits : List Char) : Nat :=
  digits.foldl (fun n c => n * 10 + (c.toNat - 48)) 0

/-- The integral part of a number: one zero, or digits that do not start with
zero. -/
def wholeDigits (cs : List Char) : List Char :=
  match cs with
  | '0' :: _ => ['0']
  | _ => cs.takeWhile Char.isDigit

/-- The fraction of a number, if a point and a digit stand here. -/
def fractionDigits (cs : List Char) : List Char :=
  match cs with
  | '.' :: cs => cs.takeWhile Char.isDigit
  | _ => []

/-- The exponent of a number, if one stands here: its value and its length. -/
def exponentPart (cs : List Char) : Option (Int × Nat) :=
  match cs with
  | e :: cs =>
    if e = 'e' ∨ e = 'E' then
      let skip := if (cs.head? = some '+' || cs.head? = some '-') then 1 else 0
      let digits := (cs.drop skip).takeWhile Char.isDigit
      if digits.isEmpty then none
      else
        let value : Int := digitsValue digits
        some (if cs.head? = some '-' then -value else value, 1 + skip + digits.length)
    else none
  | [] => none

/-- A number. -/
def readNumber (input : Input) : Except (Problem × Nat) (Json × Input) :=
  let negative := input.rest.head? = some '-'
  let cs := if negative then input.rest.drop 1 else input.rest
  let whole := wholeDigits cs
  if whole.isEmpty then .error (.expectedValue, input.index)
  else
    let afterWhole := cs.drop whole.length
    let fraction := fractionDigits afterWhole
    let fractionLength := if fraction.isEmpty then 0 else fraction.length + 1
    let afterFraction := afterWhole.drop fractionLength
    let size := (if negative then 1 else 0) + whole.length + fractionLength
    match exponentPart afterFraction with
    | some (exponent, n) =>
      let x := Decimal.toFloat (digitsValue (whole ++ fraction)) (exponent - fraction.length)
      .ok (.real (if negative then -x else x), input.drop (size + n))
    | none =>
      if fraction.isEmpty then
        if maxDigits < whole.length then .error (.tooManyDigits whole.length, input.index)
        else
          let n : Int := digitsValue whole
          .ok (.int (if negative then -n else n), input.drop size)
      else
        let x := Decimal.toFloat (digitsValue (whole ++ fraction)) (-fraction.length)
        .ok (.real (if negative then -x else x), input.drop size)

/-- The constants, by name. -/
def constants : List (List Char × Json) :=
  [("null".toList, .null), ("true".toList, .bool true), ("false".toList, .bool false),
    ("NaN".toList, .real (0.0 / 0.0)), ("Infinity".toList, .real (1.0 / 0.0)),
    ("-Infinity".toList, .real (-1.0 / 0.0))]

/-- A constant or a number. -/
def readAtom (input : Input) : Except (Problem × Nat) (Json × Input) :=
  match constants.find? fun constant => constant.1.isPrefixOf input.rest with
  | some (name, value) => .ok (value, input.drop name.length)
  | none => readNumber input

mutual

/-- A value of any kind. -/
def readValue : Nat → Reader Json
  | 0, input => .error (.expectedValue, input.index)
  | fuel + 1, input =>
    match input.rest with
    | '"' :: _ => do
      let (s, input) ← readText (input.drop 1)
      return (.text s, input)
    | '{' :: _ =>
      let input := (input.drop 1).skipGap
      if input.rest.head? = some '}' then .ok (.object [], input.drop 1)
      else readFields fuel [] input
    | '[' :: _ =>
      let input := (input.drop 1).skipGap
      if input.rest.head? = some ']' then .ok (.array [], input.drop 1)
      else readItems fuel [] input
    | _ => readAtom input

/-- The items of an array from one of them to the closing bracket. -/
def readItems : Nat → List Json → Reader Json
  | 0, _, input => .error (.expectedValue, input.index)
  | fuel + 1, done, input => do
    let (item, input) ← readValue fuel input
    let input := input.skipGap
    match input.rest with
    | ']' :: _ => return (.array (item :: done).reverse, input.drop 1)
    | ',' :: _ => readItems fuel (item :: done) (input.drop 1).skipGap
    | _ => .error (.expectedComma, input.index)

/-- The fields of an object from one of them to the closing brace. -/
def readFields : Nat → Table Json → Reader Json
  | 0, _, input => .error (.expectedName, input.index)
  | fuel + 1, done, input =>
    match input.rest with
    | '"' :: _ => do
      let (name, input) ← readText (input.drop 1)
      let input := input.skipGap
      if input.rest.head? ≠ some ':' then .error (.expectedColon, input.index)
      else
        let (value, input) ← readValue fuel (input.drop 1).skipGap
        let input := input.skipGap
        match input.rest with
        | '}' :: _ => return (.object (done.put name value), input.drop 1)
        | ',' :: _ => readFields fuel (done.put name value) (input.drop 1).skipGap
        | _ => .error (.expectedComma, input.index)
    | _ => .error (.expectedName, input.index)

end

/-- The one value of a text, without regard to lines. -/
def decodeChars (cs : List Char) : Except (Problem × Nat) Json :=
  if cs.head? = some (Char.ofNat 0xfeff) then .error (.byteOrderMark, 0)
  else
    match readValue (2 * cs.length + 2) (Input.skipGap ⟨cs, 0⟩) with
    | .error e => .error e
    | .ok (value, input) =>
      let input := input.skipGap
      if input.rest.isEmpty then .ok value else .error (.extraData, input.index)

/-- The one value of a text. -/
def decode (s : String) : Except DecodeError Json :=
  match decodeChars s.toList with
  | .ok value => .ok value
  | .error (problem, index) =>
    let (line, column) := position s.toList index
    .error ⟨problem, index, line, column⟩

end NameRecovery.Json
