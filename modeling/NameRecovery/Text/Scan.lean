/-!
# Recognising shapes in running text

A `Recogniser` says what stands at the start of a text and how long it is.
`pieces` looks for its matches from left to right: a match begins at the first
place where there is one, and the search goes on behind it.

* `findAll` — what the matches are;
* `replaceAll` — the text with each match replaced.
-/

namespace NameRecovery.Text

/-- What stands at the start of a text, and the number of its characters. -/
abbrev Recogniser (α : Type) := List Char → Option (α × Nat)

variable {α : Type}

/-- The matches of a recogniser and the characters between them; the first `skip`
characters belong to a match already found. -/
def piecesFrom (recogniser : Recogniser α) : Nat → List Char → List (Char ⊕ α)
  | _, [] => []
  | skip + 1, _ :: cs => piecesFrom recogniser skip cs
  | 0, c :: cs =>
    match recogniser (c :: cs) with
    | some (found, size) => .inr found :: piecesFrom recogniser (size - 1) cs
    | none => .inl c :: piecesFrom recogniser 0 cs

/-- The matches of a recogniser and the characters between them. -/
def pieces (recogniser : Recogniser α) (cs : List Char) : List (Char ⊕ α) :=
  piecesFrom recogniser 0 cs

/-- What a recogniser finds in a text. -/
def findAll (recogniser : Recogniser α) (cs : List Char) : List α :=
  (pieces recogniser cs).filterMap Sum.getRight?

/-- A text with everything a recogniser finds replaced. -/
def replaceAll (recogniser : Recogniser α) (replacement : α → List Char) (cs : List Char) :
    List Char :=
  (pieces recogniser cs).flatMap fun
    | .inl c => [c]
    | .inr found => replacement found

/-- What is left of a text behind the given characters. -/
def dropExact : List Char → List Char → Option (List Char)
  | [], cs => some cs
  | _ :: _, [] => none
  | p :: ps, c :: cs => if p = c then dropExact ps cs else none

/-- Does a text stand somewhere in another one? -/
def occursIn (part : List Char) : List Char → Bool
  | [] => part.isEmpty
  | c :: cs => part.isPrefixOf (c :: cs) || occursIn part cs

end NameRecovery.Text
