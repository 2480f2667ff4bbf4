import NameRecovery.Source.Pattern.Piece
import NameRecovery.Text.Integer

/-!
# Checking a pattern

A pattern is checked from left to right.  On the way it is known which groups
there are, which of them are closed, and how many characters each of them takes.
This module has the parts without nesting: escapes, character classes, counts
of repetitions, names and marks that change how the pattern is read.
-/

namespace NameRecovery.Source.Pattern

/-! ## Widths -/

/-- How many characters a part of a pattern takes. -/
structure Width where
  /-- The least number. -/
  least : Nat := 0
  /-- The greatest number. -/
  most : Nat := 0
  deriving Repr, DecidableEq

/-- Numbers of characters are not told apart from here on. -/
def widthLimit : Nat := Nat.pow 2 64

/-- The count of a repetition has to be smaller. -/
def countLimit : Nat := Nat.pow 2 32 - 1

namespace Width

/-- One character. -/
def one : Width := ⟨1, 1⟩

/-- One part after another. -/
def append (a b : Width) : Width :=
  ⟨min (a.least + b.least) widthLimit, min (a.most + b.most) widthLimit⟩

/-- One part or another. -/
def orElse (a b : Width) : Width :=
  ⟨min a.least b.least, max a.most b.most⟩

/-- A part repeated; without a greatest count, without bound. -/
def times (a : Width) (least : Nat) (most : Option Nat) : Width :=
  let upper := match most with
    | some n => a.most * n
    | none => if a.most = 0 then 0 else widthLimit
  ⟨min (a.least * least) widthLimit, min upper widthLimit⟩

/-- Does a part take one fixed number of characters? -/
def isFixed (a : Width) : Bool :=
  a.least == a.most && decide (a.least ≤ countLimit)

end Width

/-! ## Items -/

/-- What a part of a pattern is, as far as its repetition depends on it. -/
inductive Kind where
  /-- A place between characters, which cannot be repeated. -/
  | place
  /-- A repetition, which cannot be repeated again. -/
  | repetition
  /-- Anything else. -/
  | other
  deriving Repr, DecidableEq

/-- A part of a pattern. -/
structure Item where
  /-- What it is. -/
  kind : Kind := .other
  /-- How many characters it takes. -/
  width : Width := {}
  deriving Repr, DecidableEq

/-- One character. -/
def Item.character : Item := { width := .one }

/-- The parts read so far. -/
structure Items where
  /-- How many characters all parts but the last take. -/
  before : Width := {}
  /-- The last part. -/
  last : Option Item := none
  deriving Repr, DecidableEq

namespace Items

/-- How many characters the parts take. -/
def width (items : Items) : Width :=
  match items.last with
  | some item => items.before.append item.width
  | none => items.before

/-- One part more. -/
def push (items : Items) (item : Item) : Items :=
  ⟨items.width, some item⟩

/-- The last part repeated, if it can be. -/
def repeatLast? (items : Items) (least : Nat) (most : Option Nat) : Option Items := do
  let item ← items.last
  if item.kind = .other then
    return { items with last := some ⟨.repetition, item.width.times least most⟩ }
  else none

end Items

/-! ## State -/

/-- A group that has been opened. -/
structure Group where
  /-- Its name. -/
  name : Option (List Nat)
  /-- How many characters it takes, once it is closed. -/
  width : Option Width
  deriving Repr, DecidableEq

/-- What is known in the course of a check. -/
structure State where
  /-- The pieces that are left. -/
  rest : List Piece
  /-- The groups, in the order in which they were opened. -/
  groups : List Group := []
  /-- Inside a look back, how many groups there were before it. -/
  outside : Option Nat := none
  /-- The numbers of groups that conditions ask for. -/
  conditions : List Nat := []
  /-- The marks that hold for the whole pattern. -/
  marks : List Char := []
  /-- Is there a repetition? -/
  repeats : Bool := false

/-- A step of a check: it fails when the pattern is not sound. -/
abbrev Check (α : Type) := StateT State Option α

/-- The next piece. -/
def next : Check Piece := do
  match (← get).rest with
  | [] => failure
  | piece :: rest =>
    modify fun s => { s with rest }
    return piece

/-- Read a character if it comes next. -/
def accept (c : Char) : Check Bool := do
  match (← get).rest with
  | [] => return false
  | piece :: rest =>
    if piece.isChar c then
      modify fun s => { s with rest }
      return true
    else return false

/-- Read a character that has to come next. -/
def expect (c : Char) : Check Unit := do
  if !(← accept c) then failure

/-- Check a condition. -/
def require (condition : Bool) : Check Unit :=
  if condition then pure () else failure

/-- The characters that come next and satisfy `p`, at most `most` of them. -/
def takeChars (most : Nat) (p : Char → Bool) : Check (List Char) := fun s =>
  let chars := ((s.rest.take most).map fun piece => piece.char?.filter p)
  let found := (chars.takeWhile Option.isSome).filterMap id
  some (found, { s with rest := s.rest.drop found.length })

/-! ## References to groups -/

/-- The width of a group that can be referred to: it has to be closed, and inside a
look back it has to have been there before. -/
def closedGroup (number : Nat) : Check Width := do
  let s ← get
  match number, s.outside with
  | 0, _ => failure
  | n + 1, outside =>
    if outside.any fun before => before < number then failure
    match (s.groups[n]?).bind Group.width with
    | some width => return width
    | none => failure

/-- The number of the group with a name. -/
def groupNamed (name : List Nat) : Check Nat := do
  match (← get).groups.findIdx? fun group => group.name == some name with
  | some n => return n + 1
  | none => failure

/-! ## Escapes -/

/-- Exactly `count` hexadecimal digits, as a code. -/
def hexCode (count : Nat) : Check Nat := do
  let digits ← takeChars count isHex
  let code := hexNumber digits
  require (digits.length == count && decide (code ≤ 0x10ffff))
  return code

/-- The number some digits stand for, if there are any. -/
def count? (digits : List Char) : Option Nat :=
  if digits.isEmpty then none
  else some (digits.foldl (fun n c => n * 10 + (c.toNat - 48)) 0)

/-- The value of octal digits. -/
def octalNumber (digits : List Char) : Nat :=
  digits.foldl (fun n c => n * 8 + (c.toNat - 48)) 0

/-- The letters that stand for a class of characters. -/
def classLetters : List Char := ['d', 'D', 's', 'S', 'w', 'W']

/-- The letters that stand for a place. -/
def placeLetters : List Char := ['A', 'b', 'B', 'Z']

/-- The code a letter behind a backslash stands for. -/
def letterCode? : Char → Option Nat
  | 'a' => some 7
  | 'b' => some 8
  | 't' => some 9
  | 'n' => some 10
  | 'v' => some 11
  | 'f' => some 12
  | 'r' => some 13
  | _ => none

/-- The code of an escape that means the same everywhere: of its digits, of a
letter with a meaning, or of a character that is no letter. -/
def plainEscape (code : Nat) (c : Char) : Check Nat := do
  match c with
  | 'x' => hexCode 2
  | 'u' => hexCode 4
  | 'U' => hexCode 8
  | _ =>
    match letterCode? c with
    | some code => return code
    | none =>
      require !c.isAlpha
      return code

/-- A reference to a group by its number, or three octal digits; the first digit
has been read. -/
def reference (first : Char) : Check Item := do
  let second ← takeChars 1 Char.isDigit
  let digits := first :: second
  let third ← if digits.length = 2 && digits.all isOctal then takeChars 1 isOctal else pure []
  if third.isEmpty then return { width := ← closedGroup ((count? digits).getD 0) }
  else
    require (decide (octalNumber (digits ++ third) ≤ 0xff))
    return .character

/-- The part an escape stands for. -/
def escape (code : Nat) : Check Item := do
  let c := Char.ofNat code
  if placeLetters.contains c then return { kind := .place }
  else if classLetters.contains c then return .character
  else if c = '0' then
    let _ ← takeChars 2 isOctal
    return .character
  else if c.isDigit then reference c
  else
    let _ ← plainEscape code c
    return .character

/-- The code an escape in a class stands for, unless it is a class of its own. -/
def classEscape (code : Nat) : Check (Option Nat) := do
  let c := Char.ofNat code
  if classLetters.contains c then return none
  else if isOctal c then
    let value := octalNumber (c :: (← takeChars 2 isOctal))
    require (decide (value ≤ 0xff))
    return some value
  else
    require !c.isDigit
    return some (← plainEscape code c)

/-! ## Classes -/

/-- The code a piece of a class stands for, unless it is a class of its own. -/
def classCode : Piece → Check (Option Nat)
  | .plain code => return some code
  | .escaped code => classEscape code

/-- A range of a class has to run upwards from one code to another. -/
def isRange : Option Nat → Option Nat → Bool
  | some low, some high => decide (low ≤ high)
  | _, _ => false

/-- The pieces of a class up to its closing bracket, which means itself at the
start. -/
def classBody : Nat → Bool → Check Unit
  | 0, _ => failure
  | budget + 1, atStart => do
    let piece ← next
    if piece.isChar ']' && !atStart then return ()
    else
      let low ← classCode piece
      if ← accept '-' then
        let piece ← next
        if piece.isChar ']' then return ()
        else
          require (isRange low (← classCode piece))
          classBody budget false
      else classBody budget false

/-! ## Counts of repetitions -/

/-- The counts in braces, the opening one being read; what cannot be read as counts
means itself. -/
def braceCounts : Check (Option (Nat × Option Nat)) := do
  let start ← get
  if start.rest.head?.any fun piece => piece.isChar '}' then return none
  else
    let size := start.rest.length
    let least := count? (← takeChars size Char.isDigit)
    let most ←
      if ← accept ',' then do pure (count? (← takeChars size Char.isDigit)) else pure least
    if ← accept '}' then return some (least.getD 0, most)
    else
      set start
      return none

/-- The counts the character just read stands for. -/
def counts (c : Char) : Check (Option (Nat × Option Nat)) :=
  match c with
  | '?' => return some (0, some 1)
  | '*' => return some (0, none)
  | '+' => return some (1, none)
  | _ => braceCounts

/-- Are the counts small enough, and in order? -/
def countsInOrder (least : Nat) (most : Option Nat) : Bool :=
  decide (least < countLimit) && most.all fun most => decide (most < countLimit ∧ least ≤ most)

/-- The last part repeated.  A mark of how eagerly it is repeated may follow. -/
def repeated (items : Items) (least : Nat) (most : Option Nat) : Check Items := do
  require (countsInOrder least most)
  match items.repeatLast? least most with
  | none => failure
  | some items =>
    if !(← accept '?') then let _ ← accept '+'
    modify fun s => { s with repeats := true }
    return items

/-! ## Names -/

/-- Letters whose plain form is no identifier. -/
def compoundLetters : Text.Ranges := #[
  (0x37a, 0x37a), (0x2e2f, 0x2e2f), (0x309b, 0x309c), (0xfc5e, 0xfc63), (0xfdfa, 0xfdfb),
  (0xfe70, 0xfe70), (0xfe72, 0xfe72), (0xfe74, 0xfe74), (0xfe76, 0xfe76), (0xfe78, 0xfe78),
  (0xfe7a, 0xfe7a), (0xfe7c, 0xfe7c), (0xfe7e, 0xfe7e)]

/-- Letters whose plain form cannot start an identifier. -/
def dependentLetters : Text.Ranges := #[(0xe33, 0xe33), (0xeb3, 0xeb3), (0xff9e, 0xff9f)]

/-- Can a name of a group start with the character? -/
def startsGroupName (c : Char) : Bool :=
  c == '_' ||
    (Text.startsIdentifier c && !Text.Ranges.has compoundLetters c &&
      !Text.Ranges.has dependentLetters c)

/-- Can a name of a group go on with the character? -/
def continuesGroupName (c : Char) : Bool :=
  Text.continuesIdentifier c && !Text.Ranges.has compoundLetters c

/-- Can the codes name a group? -/
def isGroupName (name : List Nat) : Bool :=
  let chars := name.map fun code => (Piece.plain code).char?
  match chars with
  | [] => false
  | first :: rest => first.any startsGroupName && rest.all fun c => c.any continuesGroupName

/-- The codes up to a closing character, which is read as well; there has to be at
least one. -/
def codesUntil (closing : Char) : Check (List Nat) := do
  let rest := (← get).rest
  let name := rest.takeWhile fun piece => !piece.isChar closing
  modify fun s => { s with rest := s.rest.drop name.length }
  expect closing
  require !name.isEmpty
  return name.flatMap Piece.codes

/-- A name of a group up to a closing character. -/
def groupName (closing : Char) : Check (List Nat) := do
  let name ← codesUntil closing
  require (isGroupName name)
  return name

/-- The group a condition asks for.  A group with a number may follow later, but not
if the condition stands inside a look back. -/
def condition : Check Unit := do
  let name ← codesUntil ')'
  let number ←
    if isGroupName name then groupNamed name
    else
      match Text.integer? (String.ofList (name.map Char.ofNat)) with
      | some (.ofNat (n + 1)) =>
        modify fun s => { s with conditions := s.conditions ++ [n + 1] }
        pure (n + 1)
      | _ => failure
  if (← get).outside.isSome then
    let _ ← closedGroup number

/-! ## Marks -/

/-- The letters of the marks. -/
def markLetters : List Char := ['i', 'm', 's', 'x', 'a', 't', 'u']

/-- Marks that hold for one group, and marks that do not hold in it; or marks for
the whole pattern. -/
inductive Marks where
  /-- Marks for the whole pattern. -/
  | whole (on : List Char)
  /-- Marks for a group. -/
  | scoped (on off : List Char)
  deriving Repr, DecidableEq

/-- Marks that exclude each other do not stand together. -/
def areCompatible (marks : List Char) : Bool :=
  !(marks.contains 'a' && marks.contains 'u')

/-- Marks that do not hold in a group, up to its colon. -/
def marksOff (on : List Char) : Check Marks := do
  let off ← takeChars (← get).rest.length markLetters.contains
  expect ':'
  require (!off.isEmpty && !off.any fun c => ['a', 'u', 't'].contains c || on.contains c)
  return .scoped on off

/-- Marks at the start of a group, the opening of which has been read. -/
def marks : Check Marks := do
  let on ← takeChars (← get).rest.length markLetters.contains
  require (areCompatible on)
  if ← accept ')' then
    require !on.isEmpty
    return .whole on
  else
    require !on.contains 't'
    if ← accept '-' then marksOff on
    else
      expect ':'
      return .scoped on []

end NameRecovery.Source.Pattern
