import NameRecovery.Json.Encode

/-!
# Texts as bytes

Files hold texts in UTF-8.  Bytes that are no text are refused with the first
bytes that are wrong: those of a character up to the one that cannot follow.
-/

namespace NameRecovery.Text

/-- What is wrong with bytes that should be a text. -/
inductive ByteProblem where
  /-- No character starts with this byte. -/
  | badStart
  /-- The character does not go on like this. -/
  | badContinuation
  /-- The character is cut off. -/
  | cutOff
  deriving Repr, DecidableEq

/-- The problem in words. -/
def ByteProblem.message : ByteProblem → String
  | .badStart => "invalid start byte"
  | .badContinuation => "invalid continuation byte"
  | .cutOff => "unexpected end of data"

/-- Bytes that are no text. -/
structure ByteError where
  /-- What is wrong. -/
  problem : ByteProblem
  /-- The first of the wrong bytes. -/
  first : UInt8
  /-- Its index. -/
  index : Nat
  /-- How many bytes are wrong. -/
  size : Nat
  deriving Repr, DecidableEq

/-- The error in words. -/
def ByteError.message (e : ByteError) : String :=
  "'utf-8' codec can't decode " ++
    (if e.size = 1 then
      "byte 0x" ++ String.ofList (Json.hex 2 e.first.toNat) ++ " in position " ++ toString e.index
    else
      "bytes in position " ++ toString e.index ++ "-" ++ toString (e.index + e.size - 1)) ++
    ": " ++ e.problem.message

/-- How many bytes follow the first byte of a character. -/
def followers? (b : UInt8) : Option Nat :=
  let n := b.toNat
  if n < 0x80 then some 0
  else if n < 0xc2 then none
  else if n < 0xe0 then some 1
  else if n < 0xf0 then some 2
  else if n < 0xf5 then some 3
  else none

/-- Can the byte follow the first byte of a character directly?  Some first bytes
leave fewer choices, so that every character has one form only. -/
def canFollow (b next : UInt8) : Bool :=
  let low := if b = 0xe0 then 0xa0 else if b = 0xf0 then 0x90 else 0x80
  let high := if b = 0xed then 0x9f else if b = 0xf4 then 0x8f else 0xbf
  low ≤ next.toNat && next.toNat ≤ high

/-- Can the byte stand inside a character? -/
def isContinuation (b : UInt8) : Bool :=
  0x80 ≤ b.toNat && b.toNat ≤ 0xbf

/-- The problem with the bytes after a first byte of which `missing` are needed and
`seen` of the character have been seen, if there is one, with the number of wrong
bytes. -/
def tailProblem (test : UInt8 → Bool) (seen : Nat) : Nat → List UInt8 → Option (ByteProblem × Nat)
  | 0, _ => none
  | _ + 1, [] => some (.cutOff, seen)
  | missing + 1, b :: bs =>
    if test b then tailProblem isContinuation (seen + 1) missing bs
    else some (.badContinuation, seen)

/-- The first problem in bytes; the first `skip` of them belong to a character
already seen. -/
def problemFrom (index : Nat) : Nat → List UInt8 → Option ByteError
  | _, [] => none
  | skip + 1, _ :: bs => problemFrom (index + 1) skip bs
  | 0, b :: bs =>
    match followers? b with
    | none => some ⟨.badStart, b, index, 1⟩
    | some n =>
      match tailProblem (canFollow b) 1 n bs with
      | some (problem, size) => some ⟨problem, b, index, size⟩
      | none => problemFrom (index + 1) n bs

/-- The text of bytes. -/
def ofBytes (bytes : ByteArray) : Except ByteError String :=
  match problemFrom 0 0 bytes.toList with
  | some e => .error e
  | none => .ok ((String.fromUTF8? bytes).getD "")

end NameRecovery.Text
