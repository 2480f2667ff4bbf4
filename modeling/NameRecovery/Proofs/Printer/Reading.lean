import NameRecovery.Grammar.Expression
import NameRecovery.Printer.Precedence
import NameRecovery.Proofs.Text.Pieces
import Mathlib.Data.List.Forall2

/-!
# Reading printed operators back

A grammar of the texts the printer makes of expressions that consist of operators,
members and calls.  Blanks are where the printer puts them: around an operator
between two operands and after a comma, and nowhere before an index, a call or an
update.  An expression is its start and then whatever follows and binds tight enough.

* `Reads` — an expression at a given binding strength, and what is left of the text;
* `Reads.unique` — a text is read in one way;
* `Stops` — nothing that binds as tight as a strength follows;
* `Spells` — a text that is read as a tree, whatever stands behind it;
* `Spells.follow` — a spelling with a sequel behind it spells the larger tree.
-/

namespace NameRecovery.Reader

open Source Printer

/-! ## Nodes -/

/-- An expression with an operator in front. -/
def unaryNode (operator : String) (argument : Tree) : Tree :=
  .node "UnaryExpression"
    [("operator", .text operator), ("argument", argument), ("prefix", .bool true)]

/-- Two operands with an operator between them; the logical operators have a kind of
node of their own. -/
def operationNode (operator : String) (left right : Tree) : Tree :=
  .node
    (if ["??", "||", "&&"].contains operator then "LogicalExpression" else "BinaryExpression")
    [("operator", .text operator), ("left", left), ("right", right)]

/-- A choice between two expressions. -/
def choiceNode (test consequent alternate : Tree) : Tree :=
  .node "ConditionalExpression"
    [("test", test), ("consequent", consequent), ("alternate", alternate)]

/-- An assignment. -/
def assignmentNode (operator : String) (left right : Tree) : Tree :=
  .node "AssignmentExpression"
    [("operator", .text operator), ("left", left), ("right", right)]

/-- Expressions with commas between. -/
def sequenceNode (exprs : List Tree) : Tree :=
  .node "SequenceExpression" [("expressions", .list exprs)]

/-- A whole number, as it is spelled. -/
def numberNode (digits : String) : Tree :=
  .node "Literal" [("raw", .text digits)]

/-! ## The grammar -/

/-- How an expression starts. -/
inductive Opening where
  /-- With a name or a number, which is an expression. -/
  | whole (t : Tree)
  /-- With an opening parenthesis. -/
  | group
  /-- With an operator. -/
  | unary (operator : String)
  /-- With an update. -/
  | update (operator : String)
  /-- With `new`. -/
  | new

/-- What a word at the start of an expression is. -/
def wordOpening (word : String) : Opening :=
  if word.toList.all Char.isDigit then .whole (numberNode word)
  else if ["typeof", "void", "delete"].contains word then .unary word
  else if word = "new" then .new
  else .whole (Grammar.identifier word)

/-- The start of an expression, and what is left.  A sign that is doubled is an
update. -/
def opening? : List Char → Option (Opening × List Char)
  | [] => none
  | c :: cs =>
    if c = ' ' then opening? cs
    else if isNamePart c then
      some (wordOpening (String.ofList (c :: cs.takeWhile isNamePart)), cs.dropWhile isNamePart)
    else if c = '(' then some (.group, cs)
    else if ['+', '-'].contains c && cs.head? = some c then
      some (.update (String.ofList [c, c]), cs.tail)
    else if ['+', '-', '!', '~'].contains c then some (.unary (String.ofList [c]), cs)
    else none

/-- What may stand behind an expression and make a larger one of it. -/
inductive Sequel where
  /-- A dot and the name of a member. -/
  | member (name : String)
  /-- An opening bracket. -/
  | index
  /-- An opening parenthesis. -/
  | call
  /-- An update. -/
  | update (operator : String)
  /-- An operator before another operand, and how tight it binds. -/
  | operation (operator : String) (strength : Nat)
  /-- A question mark. -/
  | choice
  /-- An assignment operator. -/
  | assignment (operator : String)
  /-- A comma. -/
  | comma
  deriving DecidableEq

/-- How tight a sequel binds.  An access binds tighter than a call, for `new` takes
accesses into its operand and leaves the first call to itself. -/
def Sequel.level : Sequel → Nat
  | .member _ | .index => primaryLevel
  | .call => memberLevel
  | .update _ => updateLevel
  | .operation _ strength => strength
  | .choice => conditionalLevel
  | .assignment _ => assignmentLevel
  | .comma => sequenceLevel

/-- The assignment operators, those with a logical operator included. -/
def assignmentOperators : List String :=
  Grammar.assignmentOperators ++ ["??=", "||=", "&&="]

/-- What a word between two blanks is. -/
def wordSequel? (word : String) : Option Sequel :=
  if word = "?" then some .choice
  else if assignmentOperators.contains word then some (.assignment word)
  else (operatorLevels.find? word).map (.operation word)

/-- The sequel that starts here, and what is left. -/
def sequel? : List Char → Option (Sequel × List Char)
  | [] => none
  | c :: cs =>
    if c = ' ' then
      (wordSequel? (String.ofList (cs.takeWhile (· != ' ')))).map (·, cs.dropWhile (· != ' '))
    else if c = '.' then
      some (.member (String.ofList (cs.takeWhile isNamePart)), cs.dropWhile isNamePart)
    else if c = '[' then some (.index, cs)
    else if c = '(' then some (.call, cs)
    else if c = ',' then some (.comma, cs)
    else if ['+', '-'].contains c && cs.head? = some c then
      some (.update (String.ofList [c, c]), cs.tail)
    else none

/-- The strength an operator between two operands demands of its right one. -/
def rightLevel (operator : String) (strength : Nat) : Nat :=
  if operator = "**" then strength else strength + 1

mutual

/-- The text starts with an expression whose sequels bind at least as tight as
`minimum`. -/
inductive Reads : Nat → List Char → Tree → List Char → Prop where
  | intro {minimum : Nat} {cs cs' cs'' rest : List Char} {opening : Opening} {t u : Tree}
      (hopening : opening? cs = some (opening, cs')) (hoperand : Operand opening cs' t cs'')
      (hfollow : Follows minimum t cs'' u rest) : Reads minimum cs u rest

/-- The expression that starts with an opening, without sequels. -/
inductive Operand : Opening → List Char → Tree → List Char → Prop where
  | whole {t : Tree} {rest : List Char} : Operand (.whole t) rest t rest
  | group {t : Tree} {cs rest : List Char} (h : Reads sequenceLevel cs t (')' :: rest)) :
      Operand .group cs t rest
  | unary {operator : String} {t : Tree} {cs rest : List Char} (h : Reads unaryLevel cs t rest) :
      Operand (.unary operator) cs (unaryNode operator t) rest
  | update {operator : String} {t : Tree} {cs rest : List Char} (h : Reads unaryLevel cs t rest) :
      Operand (.update operator) cs (Grammar.updateNode operator t true) rest
  | new {callee : Tree} {args : List Tree} {cs cs' rest : List Char}
      (h : Reads primaryLevel cs callee ('(' :: cs')) (hargs : Arguments cs' args rest) :
      Operand .new cs (Grammar.callNode "NewExpression" callee args) rest

/-- The expression is followed by sequels that bind at least as tight as `minimum`. -/
inductive Follows : Nat → Tree → List Char → Tree → List Char → Prop where
  | stop {minimum : Nat} {t : Tree} {rest : List Char}
      (h : ∀ found ∈ sequel? rest, found.1.level < minimum) : Follows minimum t rest t rest
  | step {minimum : Nat} {t u v : Tree} {cs cs' cs'' rest : List Char} {sequel : Sequel}
      (hsequel : sequel? cs = some (sequel, cs')) (hlevel : minimum ≤ sequel.level)
      (hextend : Extends t sequel cs' u cs'') (h : Follows minimum u cs'' v rest) :
      Follows minimum t cs v rest

/-- The expression with one sequel. -/
inductive Extends : Tree → Sequel → List Char → Tree → List Char → Prop where
  | member {t : Tree} {name : String} {rest : List Char} :
      Extends t (.member name) rest
        (Grammar.memberNode t (Grammar.identifier name) false) rest
  | index {t property : Tree} {cs rest : List Char}
      (h : Reads sequenceLevel cs property (']' :: rest)) :
      Extends t .index cs (Grammar.memberNode t property true) rest
  | call {t : Tree} {args : List Tree} {cs rest : List Char} (h : Arguments cs args rest) :
      Extends t .call cs (Grammar.callNode "CallExpression" t args) rest
  | update {t : Tree} {operator : String} {rest : List Char} :
      Extends t (.update operator) rest (Grammar.updateNode operator t false) rest
  | operation {t right : Tree} {operator : String} {strength : Nat} {cs rest : List Char}
      (h : Reads (rightLevel operator strength) cs right rest) :
      Extends t (.operation operator strength) cs (operationNode operator t right) rest
  | choice {t consequent alternate : Tree} {cs cs' rest : List Char}
      (hconsequent : Reads assignmentLevel cs consequent (' ' :: ':' :: cs'))
      (halternate : Reads assignmentLevel cs' alternate rest) :
      Extends t .choice cs (choiceNode t consequent alternate) rest
  | assignment {t right : Tree} {operator : String} {cs rest : List Char}
      (h : Reads assignmentLevel cs right rest) :
      Extends t (.assignment operator) cs (assignmentNode operator t right) rest
  | comma {t : Tree} {exprs : List Tree} {cs rest : List Char} (h : Lists cs exprs rest) :
      Extends t .comma cs (sequenceNode (t :: exprs)) rest

/-- Expressions with commas between. -/
inductive Lists : List Char → List Tree → List Char → Prop where
  | last {t : Tree} {cs rest : List Char} (h : Reads assignmentLevel cs t rest)
      (hrest : rest.head? ≠ some ',') : Lists cs [t] rest
  | more {t : Tree} {ts : List Tree} {cs cs' rest : List Char}
      (h : Reads assignmentLevel cs t (',' :: cs')) (hmore : Lists cs' ts rest) :
      Lists cs (t :: ts) rest

/-- The arguments of a call, whose parenthesis is open. -/
inductive Arguments : List Char → List Tree → List Char → Prop where
  | none {rest : List Char} : Arguments (')' :: rest) [] rest
  | some {ts : List Tree} {cs rest : List Char} (hcs : cs.head? ≠ some ')')
      (h : Lists cs ts (')' :: rest)) : Arguments cs ts rest

end

/-! ## A text is read in one way

By induction on the first derivation.  What a text starts with decides how the second
one begins, and so what is left for each part is the same in both. -/

mutual

theorem Reads.unique {minimum : Nat} {cs rest rest' : List Char} {t t' : Tree}
    (h : Reads minimum cs t rest) (h' : Reads minimum cs t' rest') : t = t' ∧ rest = rest' := by
  match h, h' with
  | .intro hopening hoperand hfollow, .intro hopening' hoperand' hfollow' =>
    rw [hopening] at hopening'
    cases hopening'
    obtain ⟨rfl, rfl⟩ := hoperand.unique hoperand'
    exact hfollow.unique hfollow'
termination_by structural h

theorem Operand.unique {opening : Opening} {cs rest rest' : List Char} {t t' : Tree}
    (h : Operand opening cs t rest) (h' : Operand opening cs t' rest') :
    t = t' ∧ rest = rest' := by
  match h, h' with
  | .whole, .whole => exact ⟨rfl, rfl⟩
  | .group h, .group h' =>
    obtain ⟨rfl, hrest⟩ := h.unique h'
    exact ⟨rfl, (List.cons.inj hrest).2⟩
  | .unary h, .unary h' =>
    obtain ⟨rfl, rfl⟩ := h.unique h'
    exact ⟨rfl, rfl⟩
  | .update h, .update h' =>
    obtain ⟨rfl, rfl⟩ := h.unique h'
    exact ⟨rfl, rfl⟩
  | .new h hargs, .new h' hargs' =>
    obtain ⟨rfl, hrest⟩ := h.unique h'
    cases hrest
    obtain ⟨rfl, rfl⟩ := hargs.unique hargs'
    exact ⟨rfl, rfl⟩
termination_by structural h

theorem Follows.unique {minimum : Nat} {cs rest rest' : List Char} {t u u' : Tree}
    (h : Follows minimum t cs u rest) (h' : Follows minimum t cs u' rest') :
    u = u' ∧ rest = rest' := by
  match h, h' with
  | .stop hstop, .stop hstop' => exact ⟨rfl, rfl⟩
  | .stop hstop, .step hsequel hlevel _ _ =>
    exact absurd (hstop _ hsequel) (Nat.not_lt.2 hlevel)
  | .step hsequel hlevel _ _, .stop hstop =>
    exact absurd (hstop _ hsequel) (Nat.not_lt.2 hlevel)
  | .step hsequel hlevel hextend h, .step hsequel' hlevel' hextend' h' =>
    rw [hsequel] at hsequel'
    cases hsequel'
    obtain ⟨rfl, rfl⟩ := hextend.unique hextend'
    exact h.unique h'
termination_by structural h

theorem Extends.unique {sequel : Sequel} {cs rest rest' : List Char} {t u u' : Tree}
    (h : Extends t sequel cs u rest) (h' : Extends t sequel cs u' rest') :
    u = u' ∧ rest = rest' := by
  match h, h' with
  | .member, .member => exact ⟨rfl, rfl⟩
  | .index h, .index h' =>
    obtain ⟨rfl, hrest⟩ := h.unique h'
    exact ⟨rfl, (List.cons.inj hrest).2⟩
  | .call h, .call h' =>
    obtain ⟨rfl, rfl⟩ := h.unique h'
    exact ⟨rfl, rfl⟩
  | .update, .update => exact ⟨rfl, rfl⟩
  | .operation h, .operation h' =>
    obtain ⟨rfl, rfl⟩ := h.unique h'
    exact ⟨rfl, rfl⟩
  | .choice hc ha, .choice hc' ha' =>
    obtain ⟨rfl, hrest⟩ := hc.unique hc'
    cases hrest
    obtain ⟨rfl, rfl⟩ := ha.unique ha'
    exact ⟨rfl, rfl⟩
  | .assignment h, .assignment h' =>
    obtain ⟨rfl, rfl⟩ := h.unique h'
    exact ⟨rfl, rfl⟩
  | .comma h, .comma h' =>
    obtain ⟨rfl, rfl⟩ := h.unique h'
    exact ⟨rfl, rfl⟩
termination_by structural h

theorem Lists.unique {cs rest rest' : List Char} {ts ts' : List Tree}
    (h : Lists cs ts rest) (h' : Lists cs ts' rest') : ts = ts' ∧ rest = rest' := by
  match h, h' with
  | .last h hrest, .last h' hrest' =>
    obtain ⟨rfl, rfl⟩ := h.unique h'
    exact ⟨rfl, rfl⟩
  | .last h hrest, .more h' _ =>
    obtain ⟨-, rfl⟩ := h.unique h'
    exact absurd rfl hrest
  | .more h _, .last h' hrest =>
    obtain ⟨-, rfl⟩ := h.unique h'
    exact absurd rfl hrest
  | .more h hmore, .more h' hmore' =>
    obtain ⟨rfl, hrest⟩ := h.unique h'
    cases hrest
    obtain ⟨rfl, rfl⟩ := hmore.unique hmore'
    exact ⟨rfl, rfl⟩
termination_by structural h

theorem Arguments.unique {cs rest rest' : List Char} {ts ts' : List Tree}
    (h : Arguments cs ts rest) (h' : Arguments cs ts' rest') : ts = ts' ∧ rest = rest' := by
  match h, h' with
  | .none, .none => exact ⟨rfl, rfl⟩
  | .none, .some hcs _ => exact absurd rfl hcs
  | .some hcs _, .none => exact absurd rfl hcs
  | .some _ h, .some _ h' =>
    obtain ⟨rfl, hrest⟩ := h.unique h'
    exact ⟨rfl, (List.cons.inj hrest).2⟩
termination_by structural h

end

/-! ## Words and marks -/

section Plain

variable {c : Char} (hc : c.toNat < 128)
include hc

theorem isNameStart_plain : isNameStart c = (c.isAlpha || ['$', '_', '\\'].contains c) := by
  have hformer : Text.formerLetterRanges.has c = false := by
    simp [Text.Ranges.has, Text.formerLetterRanges]
    omega
  simp only [isNameStart, Text.startsIdentifier, Text.isLetter, hc, hformer, if_true]
  grind

theorem isNamePart_plain : isNamePart c = (isNameStart c || c.isDigit) := by
  have hformer : Text.formerMarkRanges.has c = false := by
    simp [Text.Ranges.has, Text.formerMarkRanges]
    omega
  have hmark : Text.isMark c = false := by
    simp [Text.isMark, Nat.not_le.2 hc]
  have hdecimal : Text.isDecimal c = c.isDigit := by
    simp [Text.isDecimal, hc]
  have hconnector : Text.isConnector c = (c == '_') := by
    simp [Text.isConnector, Nat.not_le.2 hc]
  have hjoiner : (c.toNat == 0x200c) = false ∧ (c.toNat == 0x200d) = false := by
    simp only [beq_eq_false_iff_ne]
    omega
  simp only [isNamePart, isNameStart, Text.continuesIdentifier, hformer, hmark, hdecimal,
    hconnector, hjoiner]
  grind

end Plain

/-- The characters that stand next to words. -/
def marks : List Char :=
  [' ', '.', ',', '(', ')', '[', ']', '+', '-', '!', '~']

/-- They are not part of words. -/
theorem isNamePart_mark {c : Char} (hc : c ∈ marks) : isNamePart c = false := by
  have hall : (marks.all fun c => decide (c.toNat < 128) &&
      !(c.isAlpha || ['$', '_', '\\'].contains c || c.isDigit)) = true := by decide
  have hmark := List.all_eq_true.1 hall c hc
  rw [Bool.and_eq_true, decide_eq_true_eq, Bool.not_eq_true'] at hmark
  rw [isNamePart_plain hmark.1, isNameStart_plain hmark.1, hmark.2]

theorem digit_isNamePart {c : Char} (hc : c.isDigit) :
    isNamePart c = true ∧ isNameStart c = false := by
  obtain ⟨n, hn, rfl⟩ : ∃ n ∈ List.range' 48 10, c = Char.ofNat n := by
    rw [Char.isDigit_iff_toNat] at hc
    refine ⟨c.toNat, ?_, (Char.ofNat_toNat c).symm⟩
    rw [List.mem_range'_1]
    exact ⟨hc.1, Nat.lt_succ_of_le hc.2⟩
  obtain ⟨hplain, hstart⟩ : (Char.ofNat n).toNat < 128 ∧
      ((Char.ofNat n).isAlpha || ['$', '_', '\\'].contains (Char.ofNat n)) = false := by
    revert n
    decide
  rw [isNamePart_plain hplain, isNameStart_plain hplain, hstart, hc]
  exact ⟨rfl, rfl⟩

/-- The words that start an expression and are not names. -/
def openingWords : List String :=
  ["typeof", "void", "delete", "new"]

theorem openingWord_isNamePart {word : String} (hword : word ∈ openingWords) :
    word.toList ≠ [] ∧ (∀ c ∈ word.toList, isNamePart c) ∧
      word.toList.all Char.isDigit = false := by
  obtain ⟨hne, halpha, hdigit⟩ : word.toList ≠ [] ∧
      (word.toList.all fun c => decide (c.toNat < 128) && c.isAlpha) = true ∧
      word.toList.all Char.isDigit = false := by
    simp only [openingWords, List.mem_cons, List.not_mem_nil, or_false] at hword
    rcases hword with rfl | rfl | rfl | rfl <;> decide
  refine ⟨hne, fun c hc => ?_, hdigit⟩
  have hletter := List.all_eq_true.1 halpha c hc
  rw [Bool.and_eq_true, decide_eq_true_eq] at hletter
  rw [isNamePart_plain hletter.1, isNameStart_plain hletter.1, hletter.2]
  rfl

theorem apart_mark {c : Char} {cs : List Char} (hc : c ∈ marks) :
    ∀ d ∈ (c :: cs).head?, isNamePart d = false := by
  rintro d ⟨⟩
  exact isNamePart_mark hc

/-- A word at the start of an expression, up to what does not continue it. -/
theorem opening?_word {word rest : List Char} (hne : word ≠ []) (hword : ∀ c ∈ word, isNamePart c)
    (hrest : ∀ c ∈ rest.head?, isNamePart c = false) :
    opening? (word ++ rest) = some (wordOpening (String.ofList word), rest) := by
  obtain ⟨c, cs, rfl⟩ := List.exists_cons_of_ne_nil hne
  have hc : isNamePart c := hword c (by simp)
  have hcs : ∀ d ∈ cs, isNamePart d := fun d hd => hword d (by simp [hd])
  have hblank : c ≠ ' ' := by
    rintro rfl
    rw [isNamePart_mark (by decide)] at hc
    cases hc
  simp only [List.cons_append, opening?, if_neg hblank, hc, if_true, Text.takeWhile_run hcs hrest,
    Text.dropWhile_run hcs hrest]

/-- A mark at the start of an expression, unless it is a doubled sign. -/
theorem opening?_mark {c : Char} {cs : List Char} (hc : c ∈ ['+', '-', '!', '~'])
    (hcs : c ∈ ['+', '-'] → cs.head? ≠ some c) :
    opening? (c :: cs) = some (.unary (String.ofList [c]), cs) := by
  have hmark : isNamePart c = false :=
    isNamePart_mark ((by decide : ['+', '-', '!', '~'] ⊆ marks) hc)
  have hblank : c ≠ ' ' := by rintro rfl; simp at hc
  have hparen : c ≠ '(' := by rintro rfl; simp at hc
  have hsingle : ¬ (['+', '-'].contains c && cs.head? = some c) = true := by
    simpa [List.contains_iff_mem] using hcs
  rw [opening?, if_neg hblank, hmark, if_neg (by decide), if_neg hparen, if_neg hsingle,
    if_pos (List.contains_iff_mem.2 hc)]

/-- A doubled sign at the start of an expression. -/
theorem opening?_update {c : Char} (cs : List Char) (hc : c ∈ ['+', '-']) :
    opening? (c :: c :: cs) = some (.update (String.ofList [c, c]), cs) := by
  have hmark : isNamePart c = false :=
    isNamePart_mark ((by decide : ['+', '-'] ⊆ marks) hc)
  have hblank : c ≠ ' ' := by rintro rfl; simp at hc
  have hparen : c ≠ '(' := by rintro rfl; simp at hc
  simp [opening?, hmark, hblank, hparen, hc]

/-- An operator between blanks. -/
theorem sequel?_word {word : List Char} (rest : List Char) (hword : ' ' ∉ word) :
    sequel? (' ' :: (word ++ ' ' :: rest)) =
      (wordSequel? (String.ofList word)).map (·, ' ' :: rest) := by
  have hrun : ∀ c ∈ word, (c != ' ') = true := by
    intro c hc
    simpa using ne_of_mem_of_not_mem hc hword
  have hblank : ∀ c ∈ (' ' :: rest).head?, (c != ' ') = false := by simp
  simp only [sequel?, if_true, Text.takeWhile_run hrun hblank, Text.dropWhile_run hrun hblank]

/-! ## Where an expression ends -/

/-- Nothing that follows belongs to an expression read at the given strength. -/
structure Stops (strength : Nat) (rest : List Char) : Prop where
  /-- The last word of the expression is not continued. -/
  apart : ∀ c ∈ rest.head?, isNamePart c = false
  /-- A sequel binds less tight. -/
  weak : ∀ sequel ∈ sequel? rest, sequel.1.level < strength

namespace Stops

variable {e e' : Nat} {rest : List Char}

theorem mono (h : Stops e rest) (he : e ≤ e') : Stops e' rest :=
  ⟨h.apart, fun sequel hs => Nat.lt_of_lt_of_le (h.weak sequel hs) he⟩

theorem nil : Stops e [] :=
  ⟨by simp, by simp [sequel?]⟩

/-- What cannot go on an expression ends it, whatever its strength. -/
theorem of_none {c : Char} (hc : isNamePart c = false) (h : sequel? (c :: rest) = none) :
    Stops e (c :: rest) :=
  ⟨by simpa using hc, by simp [h]⟩

theorem of_sequel {c : Char} {sequel : Sequel} {cs : List Char} (hc : isNamePart c = false)
    (h : sequel? (c :: rest) = some (sequel, cs)) (he : sequel.level < e) :
    Stops e (c :: rest) :=
  ⟨by simpa using hc, by simpa [h] using he⟩

theorem follows (h : Stops e rest) (t : Tree) : Follows e t rest t rest :=
  .stop h.weak

end Stops

/-! ## Spellings -/

/-- Read at a strength up to `s`, with a text behind it that stops an expression of
strength `e`, the text is the tree: whatever the tree is followed by there. -/
def Spells (text : List Char) (t : Tree) (s e : Nat) : Prop :=
  ∀ minimum rest, minimum ≤ s → Stops e rest →
    ∀ u out, Follows minimum t rest u out → Reads minimum (text ++ rest) u out

/-- A blank before an expression changes nothing. -/
theorem Reads.blank {minimum : Nat} {cs rest : List Char} {t : Tree}
    (h : Reads minimum cs t rest) : Reads minimum (' ' :: cs) t rest := by
  obtain ⟨hopening, hoperand, hfollow⟩ := h
  exact .intro (by rw [opening?, if_pos rfl, hopening]) hoperand hfollow

namespace Spells

variable {text : List Char} {t u : Tree} {s s' e e' : Nat} {rest : List Char}

theorem mono (h : Spells text t s e) (hs : s' ≤ s) (he : e' ≤ e) : Spells text t s' e' :=
  fun minimum rest hm hstops => h minimum rest (Nat.le_trans hm hs) (hstops.mono he)

/-- Up to a text that stops the reader, the text is the tree. -/
theorem reads {minimum : Nat} (h : Spells text t s e) (hs : minimum ≤ s) (he : minimum ≤ e)
    (hstops : Stops minimum rest) : Reads minimum (text ++ rest) t rest :=
  h minimum rest hs (hstops.mono he) t rest (hstops.follows t)

/-- A spelling starts like an expression. -/
theorem opening_ne_none (h : Spells text t s e) : opening? text ≠ none := by
  obtain ⟨hopening, -, -⟩ := h.reads (Nat.zero_le s) (Nat.zero_le e) Stops.nil
  rw [List.append_nil] at hopening
  simp [hopening]

/-- A spelling has a first character, which is no closing parenthesis. -/
theorem exists_cons (h : Spells text t s e) : ∃ c cs, text = c :: cs ∧ c ≠ ')' := by
  cases text with
  | nil => exact absurd rfl h.opening_ne_none
  | cons c cs =>
    refine ⟨c, cs, rfl, ?_⟩
    rintro rfl
    have hmark : isNamePart ')' = false := isNamePart_mark (by decide)
    exact h.opening_ne_none (by simp [opening?, hmark])

/-! ### From an opening -/

/-- What is an operand by itself can be read at any strength. -/
theorem of_opening (opening : Opening)
    (h : ∀ rest, Stops e rest →
      ∃ cs, opening? (text ++ rest) = some (opening, cs) ∧ Operand opening cs t rest) :
    Spells text t s e := by
  intro minimum rest _ hstops u out hfollow
  obtain ⟨cs, hopening, hoperand⟩ := h rest hstops
  exact .intro hopening hoperand hfollow

/-- A name or a number. -/
theorem whole (hne : text ≠ []) (htext : ∀ c ∈ text, isNamePart c)
    (h : wordOpening (String.ofList text) = .whole t) : Spells text t s e := by
  refine of_opening (.whole t) fun rest hstops => ⟨rest, ?_, .whole⟩
  rw [opening?_word hne htext hstops.apart, h]

/-- A spelling in parentheses. -/
theorem group (h : Spells text t s e) : Spells ('(' :: text ++ [')']) t s' e' := by
  refine of_opening .group fun rest _ => ⟨text ++ ')' :: rest, ?_, ?_⟩
  · simp [opening?, isNamePart_mark (show '(' ∈ marks by decide)]
  · have hclose : Stops sequenceLevel (')' :: rest) :=
      .of_none (isNamePart_mark (by decide)) rfl
    exact .group (h.reads (Nat.zero_le s) (Nat.zero_le e) hclose)

/-- An operand behind an operator that is a word. -/
theorem unaryWord {operator : String} (h : Spells text t s e) (hs : unaryLevel ≤ s)
    (he : unaryLevel ≤ e) (hoperator : operator ∈ ["typeof", "void", "delete"]) :
    Spells (operator.toList ++ ' ' :: text) (unaryNode operator t) s' unaryLevel := by
  obtain ⟨hne, hword, hdigits⟩ := openingWord_isNamePart
    ((by decide : ["typeof", "void", "delete"] ⊆ openingWords) hoperator)
  have hopening : wordOpening operator = .unary operator := by
    rw [wordOpening, if_neg (by simp [hdigits]), if_pos (List.contains_iff_mem.2 hoperator)]
  refine of_opening (.unary operator) fun rest hstops => ⟨' ' :: (text ++ rest), ?_, ?_⟩
  · rw [List.append_assoc, List.cons_append,
      opening?_word hne hword (apart_mark (by decide)), String.ofList_toList, hopening]
  · exact .unary (h.reads hs he hstops).blank

/-- An operand behind a mark; a blank between them keeps a sign from being doubled. -/
theorem unaryMark {c : Char} (h : Spells text t s e) (hs : unaryLevel ≤ s) (he : unaryLevel ≤ e)
    (hc : c ∈ ['+', '-', '!', '~']) (htext : c ∈ ['+', '-'] → text.head? ≠ some c) :
    Spells (c :: text) (unaryNode (String.ofList [c]) t) s' unaryLevel := by
  obtain ⟨d, cs, rfl, -⟩ := h.exists_cons
  refine of_opening (.unary (String.ofList [c])) fun rest hstops => ⟨d :: cs ++ rest, ?_, ?_⟩
  · exact opening?_mark hc htext
  · exact .unary (h.reads hs he hstops)

/-- A blank before an operand is passed. -/
theorem blank (h : Spells text t s e) : Spells (' ' :: text) t s e := by
  intro minimum rest hm hstops u out hfollow
  exact (h minimum rest hm hstops u out hfollow).blank

/-- An operand behind a doubled sign. -/
theorem updateBefore {c : Char} (h : Spells text t s e) (hs : unaryLevel ≤ s)
    (he : unaryLevel ≤ e) (hc : c ∈ ['+', '-']) :
    Spells (c :: c :: text) (Grammar.updateNode (String.ofList [c, c]) t true) s' unaryLevel := by
  refine of_opening (.update (String.ofList [c, c])) fun rest hstops => ⟨text ++ rest, ?_, ?_⟩
  · exact opening?_update (text ++ rest) hc
  · exact .update (h.reads hs he hstops)

/-! ### Lists -/

end Spells

/-- Texts that may stand between commas, and their trees. -/
def SpellsEach (texts : List (List Char)) (ts : List Tree) : Prop :=
  List.Forall₂ (fun text t => Spells text t assignmentLevel assignmentLevel) texts ts

/-- The texts with commas between. -/
def joined (texts : List (List Char)) : List Char :=
  [',', ' '].intercalate texts

theorem Lists.blank {cs rest : List Char} {ts : List Tree} (h : Lists cs ts rest) :
    Lists (' ' :: cs) ts rest := by
  cases h with
  | last h hrest => exact .last h.blank hrest
  | more h hmore => exact .more h.blank hmore

theorem Stops.comma (cs : List Char) : Stops assignmentLevel (',' :: cs) :=
  .of_sequel (isNamePart_mark (by decide)) rfl (by decide)

theorem Stops.no_comma {rest : List Char} (h : Stops sequenceLevel rest) :
    rest.head? ≠ some ',' := by
  intro hhead
  obtain ⟨cs, rfl⟩ := List.head?_eq_some_iff.1 hhead
  exact absurd (h.weak (.comma, cs) rfl) (Nat.not_lt_zero _)

/-- Texts with commas between are read as the trees they spell. -/
theorem SpellsEach.lists {texts : List (List Char)} {ts : List Tree} {rest : List Char}
    (h : SpellsEach texts ts) (hne : ts ≠ []) (hstops : Stops sequenceLevel rest) :
    Lists (joined texts ++ rest) ts rest := by
  induction h with
  | nil => exact absurd rfl hne
  | @cons text t texts ts htext htexts ih =>
    cases htexts with
    | nil =>
      have hread : Reads assignmentLevel (text ++ rest) t rest :=
        htext.reads (Nat.le_refl _) (Nat.le_refl _) (hstops.mono (by decide))
      simpa [joined] using Lists.last hread hstops.no_comma
    | @cons next u texts ts hnext hrest =>
      have htail : Lists (' ' :: (joined (next :: texts) ++ rest)) (u :: ts) rest :=
        (ih (by simp)).blank
      have hread := htext.reads (Nat.le_refl _) (Nat.le_refl _)
        (Stops.comma (' ' :: (joined (next :: texts) ++ rest)))
      simpa [joined, List.intercalate_cons_cons] using Lists.more hread htail

theorem SpellsEach.arguments {texts : List (List Char)} {ts : List Tree} (h : SpellsEach texts ts)
    (rest : List Char) : Arguments (joined texts ++ ')' :: rest) ts rest := by
  have hstops : Stops sequenceLevel (')' :: rest) :=
    .of_none (isNamePart_mark (by decide)) rfl
  cases h with
  | nil => exact .none
  | @cons text t texts ts htext htexts =>
    obtain ⟨c, cs, hc, hparen⟩ := htext.exists_cons
    have hstart : (joined (text :: texts) ++ ')' :: rest).head? ≠ some ')' := by
      cases texts <;> simp [joined, List.intercalate_cons_cons, hc, hparen]
    exact .some hstart (SpellsEach.lists (.cons htext htexts) (by simp) hstops)

namespace Spells

variable {text : List Char} {t u : Tree} {s s' e e' : Nat} {rest : List Char}

/-- An expression with `new`: its operand takes the accesses behind it, the call is
its own. -/
theorem new {texts : List (List Char)} {ts : List Tree} (h : Spells text t s e)
    (hs : primaryLevel ≤ s) (he : primaryLevel ≤ e) (hts : SpellsEach texts ts) :
    Spells ("new".toList ++ ' ' :: (text ++ '(' :: (joined texts ++ [')'])))
      (Grammar.callNode "NewExpression" t ts) s' e' := by
  obtain ⟨hne, hword, -⟩ : _ ∧ (∀ c ∈ "new".toList, isNamePart c) ∧ _ :=
    openingWord_isNamePart (by decide)
  have hopening : wordOpening "new" = .new := rfl
  refine of_opening .new fun rest _ =>
    ⟨' ' :: (text ++ '(' :: (joined texts ++ ')' :: rest)), ?_, ?_⟩
  · rw [List.append_assoc, List.cons_append,
      opening?_word hne hword (apart_mark (by decide)), String.ofList_toList, hopening]
    simp
  · have hstops : Stops primaryLevel ('(' :: (joined texts ++ ')' :: rest)) :=
      .of_sequel (isNamePart_mark (by decide)) rfl (by decide : Sequel.call.level < primaryLevel)
    exact .new (h.reads hs he hstops).blank (hts.arguments rest)

/-! ### With a sequel -/

/-- A spelling with a sequel behind it spells the larger tree. -/
theorem follow (sequel : Sequel) {c : Char} {cs : List Char} (h : Spells text t s e)
    (hc : c ∈ marks) (he : sequel.level < e) (hs : s' ≤ s)
    (hlevel : s' ≤ sequel.level)
    (hnext : ∀ rest, Stops e' rest → ∃ more,
      sequel? (c :: cs ++ rest) = some (sequel, more) ∧ Extends t sequel more u rest) :
    Spells (text ++ c :: cs) u s' e' := by
  intro minimum rest hm hstops v out hfollow
  obtain ⟨more, hsequel, hextend⟩ := hnext rest hstops
  have hstop : Stops e (c :: cs ++ rest) := .of_sequel (isNamePart_mark hc) hsequel he
  have hstep : Follows minimum t (c :: cs ++ rest) v out :=
    .step hsequel (Nat.le_trans hm hlevel) hextend hfollow
  rw [List.append_assoc]
  exact h minimum _ (Nat.le_trans hm hs) hstop v out hstep

/-- An access by name. -/
theorem member {name : String} (h : Spells text t s e) (he : primaryLevel < e)
    (hs : s ≤ primaryLevel) (hname : ∀ c ∈ name.toList, isNamePart c) :
    Spells (text ++ '.' :: name.toList)
      (Grammar.memberNode t (Grammar.identifier name) false) s e' := by
  refine h.follow (.member name) (by decide) he (Nat.le_refl s) hs fun rest hstops =>
    ⟨rest, ?_, .member⟩
  simp [sequel?, Text.takeWhile_run hname hstops.apart, Text.dropWhile_run hname hstops.apart]

/-- An access by an expression. -/
theorem index {inner : List Char} {property : Tree} {si ei : Nat} (h : Spells text t s e)
    (hproperty : Spells inner property si ei) (he : primaryLevel < e) (hs : s ≤ primaryLevel) :
    Spells (text ++ '[' :: (inner ++ [']'])) (Grammar.memberNode t property true) s e' := by
  refine h.follow .index (by decide) he (Nat.le_refl s) hs fun rest _ =>
    ⟨inner ++ ']' :: rest, by simp [sequel?], ?_⟩
  have hclose : Stops sequenceLevel (']' :: rest) :=
    .of_none (isNamePart_mark (by decide)) rfl
  exact .index (hproperty.reads (Nat.zero_le si) (Nat.zero_le ei) hclose)

/-- A call. -/
theorem call {texts : List (List Char)} {ts : List Tree} (h : Spells text t s e)
    (hts : SpellsEach texts ts) (he : memberLevel < e) (hs : memberLevel ≤ s) :
    Spells (text ++ '(' :: (joined texts ++ [')']))
      (Grammar.callNode "CallExpression" t ts) memberLevel e' := by
  refine h.follow .call (by decide) he hs (Nat.le_refl _) fun rest _ =>
    ⟨joined texts ++ ')' :: rest, by simp [sequel?], .call (hts.arguments rest)⟩

/-- An update behind its operand. -/
theorem updateAfter {c : Char} (h : Spells text t s e) (he : updateLevel < e)
    (hs : updateLevel ≤ s) (hc : c ∈ ['+', '-']) :
    Spells (text ++ [c, c]) (Grammar.updateNode (String.ofList [c, c]) t false)
      updateLevel e' := by
  have hmark : c ∈ marks :=
    (by decide : ['+', '-'] ⊆ marks) hc
  refine h.follow (.update (String.ofList [c, c])) hmark he hs (Nat.le_refl _) fun rest _ =>
    ⟨rest, ?_, .update⟩
  have hother : c ≠ ' ' ∧ c ≠ '.' ∧ c ≠ '[' ∧ c ≠ '(' ∧ c ≠ ',' := by
    refine ⟨?_, ?_, ?_, ?_, ?_⟩ <;> · rintro rfl; simp at hc
  simp [sequel?, hother, hc]

section Operators

variable {operator : String} {right : List Char} {r : Tree} {sr er : Nat}

/-- A sequel that starts with an operator between blanks. -/
theorem followWord {sequel : Sequel} {more : List Char} (h : Spells text t s e)
    (hblank : ' ' ∉ operator.toList) (hsequel : wordSequel? operator = some sequel)
    (he : sequel.level < e) (hs : sequel.level ≤ s)
    (hnext : ∀ rest, Stops e' rest → Extends t sequel (' ' :: more ++ rest) u rest) :
    Spells (text ++ ' ' :: (operator.toList ++ ' ' :: more)) u sequel.level e' := by
  refine h.follow sequel (by decide) he hs (Nat.le_refl _) fun rest hstops =>
    ⟨' ' :: more ++ rest, ?_, hnext rest hstops⟩
  simp [sequel?_word _ hblank, hsequel]

/-- An operation. -/
theorem operation {strength : Nat} (h : Spells text t s e) (hr : Spells right r sr er)
    (hoperator : (operator, strength) ∈ operatorLevels) (he : strength < e) (hs : strength ≤ s)
    (hsr : rightLevel operator strength ≤ sr) (her : rightLevel operator strength ≤ er) :
    Spells (text ++ ' ' :: (operator.toList ++ ' ' :: right)) (operationNode operator t r)
      strength (rightLevel operator strength) := by
  have hblank : ' ' ∉ operator.toList :=
    (by decide : ∀ entry ∈ operatorLevels, ' ' ∉ entry.1.toList) _ hoperator
  have hsequel : wordSequel? operator = some (.operation operator strength) :=
    (by decide : ∀ entry ∈ operatorLevels,
      wordSequel? entry.1 = some (.operation entry.1 entry.2)) _ hoperator
  exact h.followWord hblank hsequel he hs fun rest hstops =>
    .operation (hr.reads hsr her hstops).blank

/-- An assignment. -/
theorem assignment (h : Spells text t s e) (hr : Spells right r sr er)
    (hoperator : operator ∈ assignmentOperators) (he : assignmentLevel < e)
    (hs : assignmentLevel ≤ s) (hsr : assignmentLevel ≤ sr) (her : assignmentLevel ≤ er) :
    Spells (text ++ ' ' :: (operator.toList ++ ' ' :: right)) (assignmentNode operator t r)
      assignmentLevel assignmentLevel := by
  have hblank : ' ' ∉ operator.toList := by
    revert operator
    decide
  have hsequel : wordSequel? operator = some (.assignment operator) := by
    revert operator
    decide
  exact h.followWord hblank hsequel he hs fun rest hstops =>
    .assignment (hr.reads hsr her hstops).blank

/-- A choice. -/
theorem choice {left : List Char} {l : Tree} {sl el : Nat} (h : Spells text t s e)
    (hl : Spells left l sl el) (hr : Spells right r sr er) (he : conditionalLevel < e)
    (hs : conditionalLevel ≤ s) (hsl : assignmentLevel ≤ sl) (hel : assignmentLevel ≤ el)
    (hsr : assignmentLevel ≤ sr) (her : assignmentLevel ≤ er) :
    Spells (text ++ ' ' :: ("?".toList ++ ' ' :: (left ++ ' ' :: ':' :: ' ' :: right)))
      (choiceNode t l r) conditionalLevel assignmentLevel := by
  have hsequel : wordSequel? "?" = some .choice := rfl
  refine h.followWord (by decide) hsequel he hs fun rest hstops => ?_
  have hcolon : Stops assignmentLevel (' ' :: ':' :: ' ' :: (right ++ rest)) :=
    .of_none (isNamePart_mark (by decide)) rfl
  have hleft := (hl.reads hsl hel hcolon).blank
  simpa using Extends.choice hleft (hr.reads hsr her hstops).blank

/-- Expressions with commas between. -/
theorem sequence {texts : List (List Char)} {ts : List Tree} (h : Spells text t s e)
    (hts : SpellsEach texts ts) (hne : ts ≠ []) (he : sequenceLevel < e) :
    Spells (joined (text :: texts)) (sequenceNode (t :: ts)) sequenceLevel sequenceLevel := by
  have hjoined : joined (text :: texts) = text ++ ',' :: ' ' :: joined texts := by
    cases hts with
    | nil => exact absurd rfl hne
    | cons => simp [joined, List.intercalate_cons_cons]
  rw [hjoined]
  refine h.follow .comma (by decide) he (Nat.zero_le s) (Nat.zero_le _) fun rest hstops =>
    ⟨' ' :: joined texts ++ rest, by simp [sequel?], .comma (hts.lists hne hstops).blank⟩

end Operators

end Spells

end NameRecovery.Reader
