import NameRecovery.Source.Lexer
import NameRecovery.Source.Quantity
import NameRecovery.Tree.Basic

/-!
# The state of parsing

A program text is parsed with one token of lookahead.  Besides the place in the
text the state holds what the grammar depends on: whether the code is strict,
whether `in`, `yield` and `await` are operators here, which labels are in reach,
and whether the expression read last can be the target of an assignment or of a
binding.

A complaint about a token names the place of the token.  Every other complaint
names the end of the token consumed last.
-/

namespace NameRecovery.Grammar

open Source

/-- A place of a text as complaints name it. -/
structure Marker where
  /-- The index of the character. -/
  index : Nat
  /-- Its line. -/
  line : Nat
  /-- Its column, counted from zero. -/
  column : Nat
  deriving Inhabited

/-- The place of a cursor as complaints name it. -/
def Marker.ofCursor (c : Cursor) : Marker :=
  ⟨c.index, c.line, c.index - c.lineStart⟩

/-- What the grammar depends on. -/
structure Context where
  /-- Is the text a module? -/
  isModule : Bool := false
  /-- Is `await` an operator? -/
  allowAwait : Bool := false
  /-- Is `in` an operator? -/
  allowIn : Bool := true
  /-- May the function body that follows switch to strict code? -/
  allowStrictDirective : Bool := true
  /-- Is `yield` a name and no operator? -/
  allowYield : Bool := true
  /-- The first `=` after a shorthand property, which only a pattern may have. -/
  coverError : Option Token := none
  /-- Can the expression read last be assigned to? -/
  isTarget : Bool := false
  /-- Can the expression read last be a parameter? -/
  isBinding : Bool := false
  /-- Is this the body of a function? -/
  inFunction : Bool := false
  /-- Is this the body of a loop? -/
  inLoop : Bool := false
  /-- Is this the body of a switch? -/
  inSwitch : Bool := false
  /-- The labels in reach. -/
  labels : List String := []
  /-- Is the code strict? -/
  strict : Bool := false

/-- The state of parsing. -/
structure State where
  /-- The place after the lookahead. -/
  cursor : Cursor
  /-- The braces open at that place. -/
  braces : List Brace
  /-- The token to be consumed next. -/
  lookahead : Token
  /-- The place where it starts. -/
  lookaheadStart : Cursor
  /-- Does a line end stand before it? -/
  newline : Bool
  /-- The end of the token consumed last. -/
  last : Marker
  /-- What the grammar depends on. -/
  context : Context

/-- A parser: it changes the state and yields a result, or complains. -/
abbrev Parse (α : Type) := StateT State (Except SourceError) α

/-! ## Complaints -/

/-- Complain about the end of the token consumed last. -/
def complain {α : Type} (complaint : Complaint) : Parse α := fun s =>
  .error ⟨complaint, s.last.line, s.last.column + 1, s.last.index⟩

/-- Complain about the end of the token consumed last, naming the line reached. -/
def complainLate {α : Type} (complaint : Complaint) : Parse α := fun s =>
  .error ⟨complaint, s.cursor.line, s.last.column + 1, s.last.index⟩

/-- Complain about a token.  A number with too many digits cannot be named. -/
def complainAt {α : Type} (token : Token) (complaint : Complaint) : Parse α := fun s =>
  let lineStart : Int := (s.last.index : Int) - s.last.column
  let complaint :=
    if token.quantity?.any Quantity.isTooLong then .unprintableNumber else complaint
  .error ⟨complaint, token.line, token.start - lineStart + 1, token.start⟩

/-- Complain about a token if there is one, else about the end of the token
consumed last. -/
def complainAbout {α : Type} (token : Option Token) (complaint : Complaint) : Parse α :=
  match token with
  | some token => complainAt token complaint
  | none => complain complaint

/-- Why a token cannot stand where it does. -/
def unexpectedComplaint (strict : Bool) (token : Token) : Complaint :=
  match token.lexeme with
  | .endOfInput => .unexpectedEnd
  | .name _ => .unexpectedIdentifier
  | .number _ => .unexpectedNumber
  | .string _ _ => .unexpectedString
  | .template raw _ _ => .unexpectedTemplate raw
  | .keyword text =>
    if futureReserved.contains text then .unexpectedReserved
    else if strict && isStrictReserved text then .strictReserved
    else .unexpectedToken text
  | _ => .unexpectedToken token.spelling

/-- Complain that a token cannot stand where it does. -/
def unexpected {α : Type} (token : Token) : Parse α := do
  complainAt token (unexpectedComplaint (← get).context.strict token)

/-! ## Tokens -/

/-- Read from the text. -/
def scan {α : Type} (result : Scan α) : Parse α := fun s =>
  match result with
  | .ok value => .ok (value, s)
  | .error e => .error e

/-- In strict code more names are keywords. -/
def Token.inStrict (token : Token) : Token :=
  match token.lexeme with
  | .name text => if isStrictReserved text then { token with lexeme := .keyword text } else token
  | _ => token

/-- Consume the lookahead and read the next token. -/
def nextToken : Parse Token := do
  let s ← get
  let start ← scan (skipGap s.context.isModule s.cursor)
  let (token, stop, braces) ← scan (scanToken s.braces start)
  set { s with
    cursor := stop
    braces
    lookahead := if s.context.strict then Token.inStrict token else token
    lookaheadStart := start
    newline := s.lookahead.line != token.line
    last := Marker.ofCursor s.cursor }
  return s.lookahead

/-- Read the lookahead again as a regular expression, and consume it. -/
def nextRegex : Parse Token := do
  let s ← get
  let (token, stop) ← scan (scanRegex s.lookaheadStart)
  set { s with cursor := stop, lookahead := token }
  nextToken

/-- The token after the lookahead.  The braces it opens and closes count from now
on. -/
def tokenAfter : Parse Token := do
  let s ← get
  let start ← scan (skipGap s.context.isModule s.cursor)
  let (token, _, braces) ← scan (scanToken s.braces start)
  set { s with braces }
  return token

/-- The lookahead. -/
def lookahead : Parse Token := do
  return (← get).lookahead

/-- Is the lookahead the given operator or bracket? -/
def sees (text : String) : Parse Bool := do
  return (← get).lookahead.isMark text

/-- Is the lookahead one of the given operators or brackets? -/
def seesAny (texts : List String) : Parse Bool := do
  return texts.any (← get).lookahead.isMark

/-- Is the lookahead the given keyword? -/
def seesKeyword (text : String) : Parse Bool := do
  return (← get).lookahead.isKeyword text

/-- Is the lookahead the given name, which is a keyword only here? -/
def seesName (text : String) : Parse Bool := do
  return (← get).lookahead.isName text

/-- Is the end of the text reached? -/
def seesEnd : Parse Bool := do
  return (← get).lookahead.isEnd

/-- Does a line end stand before the lookahead? -/
def newlineBefore : Parse Bool := do
  return (← get).newline

/-- Consume the given operator or bracket. -/
def expect (text : String) : Parse Unit := do
  let token ← nextToken
  if !token.isMark text then unexpected token

/-- Consume the given keyword. -/
def expectKeyword (text : String) : Parse Unit := do
  let token ← nextToken
  if !token.isKeyword text then unexpected token

/-- Consume the given operator or bracket if it stands here. -/
def accept (text : String) : Parse Bool := do
  if ← sees text then
    let _ ← nextToken
    return true
  else return false

/-- End a statement: with a semicolon, at a line end, or before a closing brace or
the end of the text. -/
def endStatement : Parse Unit := do
  if ← sees ";" then
    let _ ← nextToken
  else if !(← newlineBefore) then
    if !(← seesEnd) && !(← sees "\x7d") then unexpected (← lookahead)
    modify fun s => { s with last := Marker.ofCursor s.lookaheadStart }

/-! ## The context -/

/-- The context. -/
def context : Parse Context := do
  return (← get).context

/-- Change the context. -/
def changeContext (change : Context → Context) : Parse Unit :=
  modify fun s => { s with context := change s.context }

/-- The expression read last can be neither assigned to nor bound. -/
def plainValue : Parse Unit :=
  changeContext fun c => { c with isTarget := false, isBinding := false }

/-- The expression read last can be assigned to, and not bound. -/
def plainTarget : Parse Unit :=
  changeContext fun c => { c with isTarget := true, isBinding := false }

/-- Parse an expression on its own: it may not turn out to be a pattern. -/
def isolated {α : Type} (p : Parse α) : Parse α := do
  let before ← context
  changeContext fun c => { c with isBinding := true, isTarget := true, coverError := none }
  let result ← p
  match (← context).coverError with
  | some token => unexpected token
  | none =>
    changeContext fun c => { c with
      isBinding := before.isBinding
      isTarget := before.isTarget
      coverError := before.coverError }
    return result

/-- Parse a part of an expression that may turn out to be a pattern. -/
def inherited {α : Type} (p : Parse α) : Parse α := do
  let before ← context
  changeContext fun c => { c with isBinding := true, isTarget := true, coverError := none }
  let result ← p
  changeContext fun c => { c with
    isBinding := c.isBinding && before.isBinding
    isTarget := c.isTarget && before.isTarget
    coverError := before.coverError <|> c.coverError }
  return result

/-! ## Rules that refer to each other -/

/-- The rules of the grammar that every other rule may refer to.  They are tied
together in `Grammar.Program`; `budget` bounds how deep they may still nest and
how often a list may go on. -/
structure Rules where
  /-- How far parsing may still go. -/
  budget : Nat
  /-- An expression without commas. -/
  assignment : Parse Tree
  /-- A power, or anything that binds tighter. -/
  power : Parse Tree
  /-- An expression with an operator in front, or anything that binds tighter. -/
  unary : Parse Tree
  /-- The operand of `new`. -/
  callee : Parse Tree
  /-- An operand with accesses and calls. -/
  call : Parse Tree
  /-- A pattern in a declaration of the given kind, with the tokens of its names. -/
  pattern : Option String → Parse (Tree × List Token)
  /-- A statement. -/
  statement : Parse Tree
  /-- A statement or declaration. -/
  item : Parse Tree

/-- Repeat a step that tells whether to go on, collecting what the steps yield. -/
def collect {α : Type} (step : Parse (Option α)) : Nat → Parse (List α)
  | 0 => complain .tooDeep
  | budget + 1 => do
    match ← step with
    | none => return []
    | some value => return value :: (← collect step budget)

/-! ## Small nodes -/

/-- A name as a node. -/
def identifier (name : String) : Tree :=
  .node "Identifier" [("name", .text name)]

/-- A literal as a node: its spelling. -/
def literal (token : Token) : Tree :=
  .node "Literal" [("raw", .text token.raw)]

/-- The name of an identifier. -/
def identifierName? : Tree → Option String
  | .node "Identifier" fields =>
    match fields.lookup "name" with
    | some (.text name) => some name
    | _ => none
  | _ => none

/-- An optional node. -/
def optional : Option Tree → Tree
  | some t => t
  | none => .null

end NameRecovery.Grammar
