import NameRecovery.Source.Pattern.Check

/-!
# Sound patterns

The nested parts of a pattern: alternatives, sequences, groups, looks ahead and
back, and conditions.  A look back has to take a fixed number of characters.
Marks for the whole pattern stand at its start; one of them lets blanks and
comments between the parts be passed over.
-/

namespace NameRecovery.Source.Pattern

/-- The blanks that can be passed over. -/
def blanks : List Char :=
  [' ', '\t', '\n', '\r', Char.ofNat 11, Char.ofNat 12]

/-- The mark that lets blanks and comments be passed over. -/
def looseMark : Char := 'x'

/-- The mark that forbids repetitions. -/
def templateMark : Char := 't'

/-- Pass over a comment up to the end of its line. -/
def passComment : Check Unit :=
  modify fun s =>
    let line := s.rest.takeWhile fun piece => !piece.isChar '\n'
    { s with rest := s.rest.drop (line.length + 1) }

/-- Open a group: its number. -/
def openGroup (name : Option (List Nat)) : Check Nat := do
  let s ← get
  require !(name.isSome && s.groups.any fun group => group.name == name)
  set { s with groups := s.groups ++ [Group.mk name none] }
  return s.groups.length

/-- Close a group. -/
def closeGroup (number : Nat) (width : Width) : Check Unit :=
  modify fun s =>
    { s with groups := s.groups.modify number fun group => { group with width := some width } }

/-- A look back begins: how many groups there were before the outermost one. -/
def enterLookBack : Check (Option Nat) := do
  let s ← get
  set { s with outside := s.outside <|> some s.groups.length }
  return s.outside

/-- A look back ends. -/
def leaveLookBack (outside : Option Nat) : Check Unit :=
  modify fun s => { s with outside }

/-- How a group starts. -/
inductive Opening where
  /-- A part that is complete. -/
  | item (item : Item)
  /-- Nothing: a comment. -/
  | nothing
  /-- Marks for the whole pattern. -/
  | wholeMarks (on : List Char)
  /-- Alternatives in a group that can be referred to. -/
  | captured (name : Option (List Nat))
  /-- Alternatives in a group with marks of its own. -/
  | grouped (on off : List Char)
  /-- A look ahead. -/
  | lookAhead
  /-- A look back. -/
  | lookBack
  /-- A condition has been read. -/
  | conditional

/-- The opening of a group with a name, or a reference to one. -/
def namedOpening : Check Opening := do
  if ← accept '<' then return .captured (← groupName '>')
  else
    expect '='
    return .item { width := ← closedGroup (← groupNamed (← groupName ')')) }

/-- The opening of a group, its bracket being read. -/
def opening : Check Opening := do
  if !(← accept '?') then return .captured none
  else
    let start ← get
    match (← next).char? with
    | some 'P' => namedOpening
    | some ':' | some '>' => return .grouped [] []
    | some '#' =>
      let _ ← codesUntilClosed
      return .nothing
    | some '=' | some '!' => return .lookAhead
    | some '<' =>
      if !(← accept '=') then expect '!'
      return .lookBack
    | some '(' =>
      condition
      return .conditional
    | _ =>
      set start
      match ← marks with
      | .whole on => return .wholeMarks on
      | .scoped on off => return .grouped on off
where
  /-- Pass over a comment up to its closing bracket. -/
  codesUntilClosed : Check Unit := do
    let text := (← get).rest.takeWhile fun piece => !piece.isChar ')'
    modify fun s => { s with rest := s.rest.drop text.length }
    expect ')'

/-- Take note of marks for the whole pattern, which stand before all parts. -/
def addMarks (on : List Char) (first : Bool) (items : Items) : Check Unit := do
  require (first && items.last.isNone)
  modify fun s => { s with marks := s.marks ++ on }

/-- Are blanks and comments passed over in the whole pattern? -/
def isLoose : Check Bool := do
  return (← get).marks.contains looseMark

mutual

/-- Alternatives.  `top` tells whether they are the whole pattern. -/
def alternatives : Nat → Bool → Bool → Check Width
  | 0, _, _ => failure
  | budget + 1, loose, top => do
    moreAlternatives budget loose top (← sequence budget loose top {})

/-- Further alternatives. -/
def moreAlternatives : Nat → Bool → Bool → Width → Check Width
  | 0, _, _, _ => failure
  | budget + 1, loose, top, width => do
    if ← accept '|' then
      let loose ← if top then isLoose else pure loose
      let other ← sequence budget loose false {}
      moreAlternatives budget loose top (width.orElse other)
    else return width

/-- Parts one after another.  `first` tells whether they stand at the start of the
whole pattern. -/
def sequence : Nat → Bool → Bool → Items → Check Width
  | 0, _, _, _ => failure
  | budget + 1, loose, first, items => do
    match (← get).rest with
    | [] => return items.width
    | piece :: rest =>
      if piece.isOneOf ['|', ')'] then return items.width
      else
        modify fun s => { s with rest }
        if loose && piece.isOneOf blanks then sequence budget loose first items
        else if loose && piece.isChar '#' then
          passComment
          sequence budget loose first items
        else
          match piece with
          | .escaped code => sequence budget loose first (items.push (← escape code))
          | .plain code =>
            let c := Char.ofNat code
            if c = '[' then
              let _ ← accept '^'
              classBody budget true
              sequence budget loose first (items.push .character)
            else if ['*', '+', '?', '{'].contains c then
              match ← counts c with
              | none => sequence budget loose first (items.push .character)
              | some (least, most) =>
                sequence budget loose first (← repeated items least most)
            else if c = '^' ∨ c = '$' then
              sequence budget loose first (items.push { kind := .place })
            else if c = '(' then
              match ← opening with
              | .item item => sequence budget loose first (items.push item)
              | .nothing => sequence budget loose first items
              | .wholeMarks on =>
                addMarks on first items
                sequence budget (← isLoose) first items
              | start =>
                let item ← group budget loose start
                sequence budget loose first (items.push item)
            else sequence budget loose first (items.push .character)

/-- The rest of a group. -/
def group : Nat → Bool → Opening → Check Item
  | 0, _, _ => failure
  | budget + 1, loose, start => do
    match start with
    | .captured name =>
      let number ← openGroup name
      let width ← alternatives budget loose false
      expect ')'
      closeGroup number width
      return { width }
    | .grouped on off =>
      let loose := (loose || on.contains looseMark) && !off.contains looseMark
      let width ← alternatives budget loose false
      expect ')'
      return { width }
    | .lookAhead =>
      let _ ← alternatives budget loose false
      expect ')'
      return {}
    | .lookBack =>
      let outside ← enterLookBack
      let width ← alternatives budget loose false
      leaveLookBack outside
      expect ')'
      require width.isFixed
      return {}
    | .conditional =>
      let yes ← sequence budget loose false {}
      let no ← if ← accept '|' then sequence budget loose false {} else pure {}
      expect ')'
      return { width := yes.orElse no }
    | _ => failure

end

/-- A check of all pieces. -/
def checkAll (pieces : List Piece) : Check Unit := do
  let _ ← alternatives (4 * pieces.length + 4) false true
  let s ← get
  require s.rest.isEmpty
  require (areCompatible s.marks)
  require (s.conditions.all fun number => decide (number ≤ s.groups.length))
  require !(s.repeats && s.marks.contains templateMark)

/-- Is the pattern of a regular expression sound? -/
def isSound (pattern : List Char) : Bool :=
  match pieces? pattern with
  | none => false
  | some pieces => ((checkAll pieces).run { rest := pieces }).isSome

end NameRecovery.Source.Pattern
