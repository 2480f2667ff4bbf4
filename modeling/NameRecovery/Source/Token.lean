import NameRecovery.Source.Cursor

/-!
# Tokens

The units a program text consists of.  Which word is a keyword depends on the
goal and on strictness, so the word lists stand here as well.
-/

namespace NameRecovery.Source

/-- What a token is. -/
inductive Lexeme where
  /-- The end of the text. -/
  | endOfInput
  /-- A name, escapes resolved. -/
  | name (text : String)
  /-- A keyword. -/
  | keyword (text : String)
  /-- A truth value, by its spelling. -/
  | boolean (text : String)
  /-- The null literal. -/
  | null
  /-- A number; `octal` marks the old octal spelling. -/
  | number (octal : Bool)
  /-- A text literal with its value; `octal` marks an old octal escape. -/
  | string (value : String) (octal : Bool)
  /-- An operator or a bracket. -/
  | mark (text : String)
  /-- A piece of a template: its characters, and whether it is the first and the
  last piece. -/
  | template (raw : String) (head tail : Bool)
  /-- A regular expression. -/
  | regex (pattern flags : String)
  deriving Repr, DecidableEq, Inhabited

/-- A token and its place. -/
structure Token where
  /-- What it is. -/
  lexeme : Lexeme
  /-- Its characters. -/
  raw : String
  /-- The index of its first character. -/
  start : Nat
  /-- The line on which it ends. -/
  line : Nat
  deriving Repr, DecidableEq, Inhabited

namespace Token

/-- The token between two places. -/
def between (start stop : Cursor) (lexeme : Lexeme) : Token :=
  ⟨lexeme, String.ofList (start.textTo stop), start.index, stop.line⟩

/-- Is it the given operator or bracket? -/
def isMark (token : Token) (text : String) : Bool :=
  token.lexeme == .mark text

/-- Is it the given keyword? -/
def isKeyword (token : Token) (text : String) : Bool :=
  token.lexeme == .keyword text

/-- Is it the given name? -/
def isName (token : Token) (text : String) : Bool :=
  token.lexeme == .name text

/-- Is it the end of the text? -/
def isEnd (token : Token) : Bool :=
  token.lexeme == .endOfInput

/-- The spelling of a word, operator or template; other tokens have none. -/
def spelling (token : Token) : String :=
  match token.lexeme with
  | .name text | .keyword text | .boolean text | .mark text => text
  | .template raw _ _ => raw
  | .null => "null"
  | .string value _ => value
  | .number _ => token.raw
  | .endOfInput | .regex _ _ => ""

end Token

/-- An open brace: of a block or object, or of a template substitution. -/
inductive Brace where
  /-- The brace of a block or an object. -/
  | plain
  /-- The brace of a substitution. -/
  | substitution
  deriving Repr, DecidableEq

/-! ## Words -/

/-- The keywords. -/
def keywords : List String :=
  ["if", "in", "do", "var", "for", "new", "try", "let", "this", "else", "case", "void", "with",
    "enum", "while", "break", "catch", "throw", "const", "yield", "class", "super", "return",
    "typeof", "delete", "switch", "export", "import", "default", "finally", "extends", "function",
    "continue", "debugger", "instanceof"]

/-- Words reserved for other uses. -/
def futureReserved : List String :=
  ["enum", "export", "import", "super"]

/-- Words reserved in strict code. -/
def strictReserved : List String :=
  ["implements", "interface", "package", "private", "protected", "public", "static", "yield",
    "let"]

/-- Names that strict code may not bind or assign. -/
def restrictedNames : List String :=
  ["eval", "arguments"]

/-- Is the name restricted in strict code? -/
def isRestricted (name : String) : Bool :=
  restrictedNames.contains name

/-- Is the word reserved in strict code? -/
def isStrictReserved (name : String) : Bool :=
  strictReserved.contains name

end NameRecovery.Source
