import NameRecovery.Printer.Program
import NameRecovery.Proofs.Printer.Reading
import NameRecovery.Proofs.Tree.Rename

/-!
# Printed operators determine their tree

The parentheses and blanks the printer puts into an expression that consists of
operators, members and calls keep its structure: no other such tree has the same
text.

* `OperatorTree` — the trees in question;
* `entry`, `reach` — the strength at which a printed tree can be read, and what has to
  bind less tight behind it;
* `Prints` — wherever a tree stands, its text is read back as the tree; one lemma for
  the form of each kind of node;
* `OperatorTree.prints` — every operator tree is printed so;
* `expression_determines_tree` — hence the text determines the tree.
-/

namespace NameRecovery.Printer

open Source Reader

/-! ## Operator trees -/

/-- Is the word shaped like a name? -/
def isNameShaped (word : String) : Bool :=
  word.toList.head?.any isNameStart && word.toList.all isNamePart

/-- The operators in front of their operand. -/
def unaryOperators : List String :=
  ["+", "-", "!", "~", "typeof", "void", "delete"]

/-- Trees of names, whole numbers, operators, members and calls, of any size, with the
fields the grammar gives them.  An update or an assignment may have any operand. -/
inductive OperatorTree : Tree → Prop where
  | name {name : String} (hname : isNameShaped name) (hfree : name ∉ openingWords) :
      OperatorTree (Grammar.identifier name)
  | number {digits : String} (hne : digits ≠ "") (hdigits : digits.toList.all Char.isDigit) :
      OperatorTree (numberNode digits)
  | unary {operator : String} {argument : Tree} (hoperator : operator ∈ unaryOperators)
      (hargument : OperatorTree argument) : OperatorTree (unaryNode operator argument)
  | update {operator : String} {argument : Tree} (hoperator : operator ∈ ["++", "--"])
      (before : Bool) (hargument : OperatorTree argument) :
      OperatorTree (Grammar.updateNode operator argument before)
  | operation {operator : String} {strength : Nat} {left right : Tree}
      (hoperator : (operator, strength) ∈ operatorLevels) (hleft : OperatorTree left)
      (hright : OperatorTree right) : OperatorTree (operationNode operator left right)
  | choice {test consequent alternate : Tree} (htest : OperatorTree test)
      (hconsequent : OperatorTree consequent) (halternate : OperatorTree alternate) :
      OperatorTree (choiceNode test consequent alternate)
  | assignment {operator : String} {left right : Tree}
      (hoperator : operator ∈ assignmentOperators) (hleft : OperatorTree left)
      (hright : OperatorTree right) : OperatorTree (assignmentNode operator left right)
  | sequence {exprs : List Tree} (hmany : 2 ≤ exprs.length)
      (hexprs : ∀ expr ∈ exprs, OperatorTree expr) : OperatorTree (sequenceNode exprs)
  | member {object : Tree} {name : String} (hobject : OperatorTree object)
      (hname : isNameShaped name) :
      OperatorTree (Grammar.memberNode object (Grammar.identifier name) false)
  | index {object property : Tree} (hobject : OperatorTree object)
      (hproperty : OperatorTree property) : OperatorTree (Grammar.memberNode object property true)
  | call {callee : Tree} {args : List Tree} (hcallee : OperatorTree callee)
      (hargs : ∀ arg ∈ args, OperatorTree arg) :
      OperatorTree (Grammar.callNode "CallExpression" callee args)
  | new {callee : Tree} {args : List Tree} (hcallee : OperatorTree callee)
      (hargs : ∀ arg ∈ args, OperatorTree arg) :
      OperatorTree (Grammar.callNode "NewExpression" callee args)

/-! ## Where a printed expression may stand -/

/-- The greatest strength at which a tree printed for the given strength is read back.
Where a member is demanded, only a call at its start keeps it from being the operand
of `new`. -/
def entry (t : Tree) (minimum : Nat) : Nat :=
  if minimum < memberLevel then minimum
  else if chainHasCall t then memberLevel
  else primaryLevel

/-- The strength that what follows a tree printed for the given strength must not
reach. -/
def reach (minimum : Nat) : Nat :=
  if minimum ≤ conditionalLevel then min minimum assignmentLevel
  -- Below powers operators group to the left: one of the same strength may follow.
  else if minimum < 13 then minimum + 1
  -- A power or an operand of a unary operator takes in whatever binds as tight.
  else if minimum ≤ unaryLevel then minimum
  else primaryLevel + 1

theorem entry_mono (t : Tree) {m n : Nat} (h : m ≤ n) : entry t m ≤ entry t n := by
  grind [entry, memberLevel, primaryLevel]

theorem reach_mono {m n : Nat} (h : m ≤ n) : reach m ≤ reach n := by
  grind [reach, conditionalLevel, assignmentLevel, unaryLevel, primaryLevel]

theorem le_entry (t : Tree) {m : Nat} (h : m ≤ memberLevel) : m ≤ entry t m := by
  grind [entry, memberLevel, primaryLevel]

theorem entry_member_le (t : Tree) : entry t memberLevel ≤ primaryLevel := by
  grind [entry, memberLevel, primaryLevel]

theorem entry_member {t : Tree} (h : chainHasCall t = false) :
    entry t memberLevel = primaryLevel := by
  simp [entry, h]

/-- The strength an operator between two operands demands of its left one. -/
def leftLevel (operator : String) (strength : Nat) : Nat :=
  if operator = "**" then strength + 1 else strength

/-- The strengths of the operators fit together: what an operand is printed for stops
before the operator and is reached behind it. -/
theorem operatorLevels_fit {operator : String} {strength : Nat}
    (h : (operator, strength) ∈ operatorLevels) :
    strength < memberLevel ∧ reach strength = rightLevel operator strength ∧
      strength < reach (leftLevel operator strength) ∧
      rightLevel operator strength ≤ reach (rightLevel operator strength) :=
  (by decide : ∀ entry ∈ operatorLevels,
    entry.2 < memberLevel ∧ reach entry.2 = rightLevel entry.1 entry.2 ∧
      entry.2 < reach (leftLevel entry.1 entry.2) ∧
      rightLevel entry.1 entry.2 ≤ reach (rightLevel entry.1 entry.2)) _ h

theorem operationNode_cases (operator : String) (left right : Tree) :
    ∃ kind, (kind = "LogicalExpression" ∨ kind = "BinaryExpression") ∧
      operationNode operator left right =
        .node kind [("operator", .text operator), ("left", left), ("right", right)] := by
  unfold operationNode
  split
  · exact ⟨_, .inl rfl, rfl⟩
  · exact ⟨_, .inr rfl, rfl⟩

theorem precedence_operation {operator : String} {strength : Nat}
    (h : (operator, strength) ∈ operatorLevels) (left right : Tree) :
    precedence (operationNode operator left right) = .ok strength := by
  have hlevel : operatorLevel (.text operator) = strength :=
    (by decide : ∀ entry ∈ operatorLevels, operatorLevel (.text entry.1) = entry.2) _ h
  obtain ⟨kind, rfl | rfl, hnode⟩ := operationNode_cases operator left right
  · rw [hnode, ← hlevel]
    rfl
  · rw [hnode, ← hlevel]
    rfl

/-- What is printed is read back as the tree. -/
def PrintsAs (print : Print) (t : Tree) (s e : Nat) : Prop :=
  ∃ text, print = .ok text ∧ Spells text.toList t s e

theorem PrintsAs.intro {print : Print} {text : String} {chars : List Char} {t : Tree} {s e : Nat}
    (hprint : print = .ok text) (htext : text.toList = chars) (hspells : Spells chars t s e) :
    PrintsAs print t s e :=
  ⟨text, hprint, htext ▸ hspells⟩

/-- Wherever the tree stands, what is printed is read back as it. -/
def Prints (print : Place → Nat → Tree → Print) (t : Tree) : Prop :=
  ∀ place minimum, PrintsAs (print place minimum t) t (entry t minimum) (reach minimum)

/-! ## The form of each node -/

theorem toList_inParens (text : String) :
    (inParens text).toList = '(' :: text.toList ++ [')'] := by
  simp [inParens]

namespace Prints

variable {rules : Rules} {t u : Tree} {ts : List Tree} {operator : String} {strength : Nat}

/-- What a form of its own strength gives, with parentheses where they are needed. -/
theorem of_form {kind : String} {form : Place → Tree → Print} (strength : Nat)
    (hkind : t.needKind = .ok kind) (hform : rules.expressionForm? kind = some form)
    (hstrength : precedence t = .ok strength)
    (hexposed : ∀ place, ∃ exposed, Rules.isExposedIn place t = .ok exposed)
    (h : ∀ place, PrintsAs (form place t) t (entry t strength) (reach strength)) :
    Prints rules.expressionAt t := by
  intro place minimum
  obtain ⟨exposed, hexposed⟩ := hexposed place
  have hat : rules.expressionAt place minimum t =
      if strength < minimum || exposed then
        (form { place with guardIn := false } t).map inParens
      else form place t := by
    simp only [Rules.expressionAt, hkind, hform, hstrength, hexposed, bind, Except.bind, pure,
      Except.pure, Except.map]
  rw [hat]
  split
  · obtain ⟨text, htext, hspells⟩ := h { place with guardIn := false }
    exact .intro (by rw [htext]; rfl) (toList_inParens text) hspells.group
  · next hstrong =>
    obtain ⟨text, htext, hspells⟩ := h place
    have hle : minimum ≤ strength := by
      simp only [Bool.or_eq_true, decide_eq_true_eq, not_or, Nat.not_lt] at hstrong
      exact hstrong.1
    exact ⟨text, htext, hspells.mono (entry_mono t hle) (reach_mono hle)⟩

/-- Only an `in` can be exposed. -/
theorem not_exposed (hkind : t.isKind "BinaryExpression" = false) (place : Place) :
    ∃ exposed, Rules.isExposedIn place t = .ok exposed := by
  refine ⟨false, ?_⟩
  simp [Rules.isExposedIn, hkind, pure, Except.pure]

theorem name {name : String} (hname : isNameShaped name) (hfree : name ∉ openingWords) :
    Prints rules.expressionAt (Grammar.identifier name) := by
  refine of_form primaryLevel rfl rfl rfl (not_exposed rfl) fun _ => ⟨name, rfl, ?_⟩
  simp only [isNameShaped, Bool.and_eq_true, Option.any_eq_true, List.all_eq_true] at hname
  obtain ⟨⟨c, hc, hstart⟩, hpart⟩ := hname
  have hmem : c ∈ name.toList := List.mem_of_mem_head? hc
  have hdigits : ¬ name.toList.all Char.isDigit := by
    intro hall
    have hdigit := (digit_isNamePart (List.all_eq_true.1 hall c hmem)).2
    rw [hstart] at hdigit
    cases hdigit
  refine Spells.whole (List.ne_nil_of_mem hmem) hpart ?_
  simp only [openingWords, List.mem_cons, not_or] at hfree
  simp [wordOpening, hdigits, hfree]

theorem number {digits : String} (hne : digits ≠ "") (hdigits : digits.toList.all Char.isDigit) :
    Prints rules.expressionAt (numberNode digits) := by
  refine of_form primaryLevel rfl rfl rfl (not_exposed rfl) fun _ => ⟨digits, rfl, ?_⟩
  have hpart : ∀ c ∈ digits.toList, isNamePart c := fun c hc =>
    (digit_isNamePart (List.all_eq_true.1 hdigits c hc)).1
  refine Spells.whole (by simpa using hne) hpart ?_
  rw [String.ofList_toList, wordOpening, if_pos hdigits]

theorem unary (h : Prints rules.expression t) (hoperator : operator ∈ unaryOperators) :
    Prints rules.expressionAt (unaryNode operator t) := by
  refine of_form unaryLevel rfl rfl rfl (not_exposed rfl) fun place => ?_
  obtain ⟨text, htext, hspells⟩ := h place unaryLevel
  have hs : unaryLevel ≤ entry t unaryLevel := le_entry t (by decide)
  have hreach : reach unaryLevel = unaryLevel := rfl
  have he : unaryLevel ≤ reach unaryLevel := Nat.le_of_eq hreach.symm
  have hform : rules.unary place (unaryNode operator t) =
      if ["typeof", "void", "delete"].contains operator ||
        ((operator = "-" || operator = "+") && operator.toList.isPrefixOf text.toList) then
        .ok (operator ++ " " ++ text)
      else .ok (operator ++ text) := by
    change (do
      let argument ← rules.expression place unaryLevel t
      _ : Print) = _
    rw [htext]
    rfl
  have hoperators : unaryOperators =
      ['+', '-', '!', '~'].map (fun c => String.ofList [c]) ++ ["typeof", "void", "delete"] := rfl
  rw [hoperators, List.mem_append, List.mem_map] at hoperator
  obtain ⟨c, hc, rfl⟩ | hword := hoperator
  · have hspaced : (["typeof", "void", "delete"].contains (String.ofList [c]) ||
        ((String.ofList [c] = "-" || String.ofList [c] = "+") &&
          (String.ofList [c]).toList.isPrefixOf text.toList)) = true ↔
        c ∈ ['+', '-'] ∧ text.toList.head? = some c := by
      obtain ⟨d, cs, hd, -⟩ := hspells.exists_cons
      simp only [List.mem_cons, List.not_mem_nil, or_false] at hc
      rcases hc with rfl | rfl | rfl | rfl
      · simpa [hd] using eq_comm
      · simpa [hd] using eq_comm
      · simp
      · simp
    by_cases hsign : c ∈ ['+', '-'] ∧ text.toList.head? = some c
    · have hblank : (' ' :: text.toList).head? ≠ some c := by
        rintro ⟨⟩
        simp at hc
      exact .intro (by rw [hform, if_pos (hspaced.2 hsign)]) (by simp)
        (hspells.blank.unaryMark hs he hc fun _ => hblank)
    · exact .intro (by rw [hform, if_neg (mt hspaced.1 hsign)]) (by simp)
        (hspells.unaryMark hs he hc fun hmem hhead => hsign ⟨hmem, hhead⟩)
  · rw [List.contains_iff_mem.2 hword, Bool.true_or, if_pos rfl] at hform
    exact .intro hform (by simp) (hspells.unaryWord hs he hword)

theorem update (h : Prints rules.expression t) (hoperator : operator ∈ ["++", "--"])
    (before : Bool) : Prints rules.expressionAt (Grammar.updateNode operator t before) := by
  have hoperators : ["++", "--"] = ['+', '-'].map fun c => String.ofList [c, c] := rfl
  rw [hoperators, List.mem_map] at hoperator
  obtain ⟨c, hc, rfl⟩ := hoperator
  cases before with
  | true =>
    refine of_form unaryLevel rfl rfl rfl (not_exposed rfl) fun place => ?_
    obtain ⟨text, htext, hspells⟩ := h place unaryLevel
    have hform : rules.update place (Grammar.updateNode (String.ofList [c, c]) t true) =
        .ok (String.ofList [c, c] ++ text) := by
      change (do
        let argument ← rules.expression place unaryLevel t
        _ : Print) = _
      rw [htext]
      rfl
    exact .intro hform (by simp) (hspells.updateBefore (le_entry t (by decide)) (by decide) hc)
  | false =>
    refine of_form updateLevel rfl rfl rfl (not_exposed rfl) fun place => ?_
    obtain ⟨text, htext, hspells⟩ := h place updateLevel
    have hform : rules.update place (Grammar.updateNode (String.ofList [c, c]) t false) =
        .ok (text ++ String.ofList [c, c]) := by
      change (do
        let argument ← rules.expression place updateLevel t
        _ : Print) = _
      rw [htext]
      rfl
    exact .intro hform (by simp) (hspells.updateAfter (by decide) (le_entry t (by decide)) hc)

theorem choice {v : Tree} (ht : Prints rules.expression t) (hu : Prints rules.expression u)
    (hv : Prints rules.expression v) : Prints rules.expressionAt (choiceNode t u v) := by
  refine of_form conditionalLevel rfl rfl rfl (not_exposed rfl) fun place => ?_
  obtain ⟨test, htest, hst⟩ := ht place (conditionalLevel + 1)
  obtain ⟨consequent, hconsequent, hsu⟩ := hu place assignmentLevel
  obtain ⟨alternate, halternate, hsv⟩ := hv place assignmentLevel
  have hform : rules.conditional place (choiceNode t u v) =
      .ok (test ++ " ? " ++ consequent ++ " : " ++ alternate) := by
    change (do
      let test ← rules.expression place (conditionalLevel + 1) t
      let consequent ← rules.expression place assignmentLevel u
      let alternate ← rules.expression place assignmentLevel v
      return test ++ " ? " ++ consequent ++ " : " ++ alternate : Print) = _
    rw [htest, hconsequent, halternate]
    rfl
  have hle : conditionalLevel ≤ entry t (conditionalLevel + 1) :=
    Nat.le_trans (by decide) (le_entry t (by decide))
  exact .intro hform (by simp) (hst.choice hsu hsv (by decide) hle (le_entry u (by decide))
    (by decide) (le_entry v (by decide)) (by decide))

theorem assignment (ht : Prints rules.expression t) (hu : Prints rules.expression u)
    (hoperator : operator ∈ assignmentOperators) :
    Prints rules.expressionAt (assignmentNode operator t u) := by
  refine of_form assignmentLevel rfl rfl rfl (not_exposed rfl) fun place => ?_
  obtain ⟨left, hleft, hst⟩ := ht place memberLevel
  obtain ⟨right, hright, hsu⟩ := hu place assignmentLevel
  have hform : rules.assignment place (assignmentNode operator t u) =
      .ok (left ++ " " ++ operator ++ " " ++ right) := by
    change (do
      let left ← rules.expression place memberLevel t
      let right ← rules.expression place assignmentLevel u
      return left ++ " " ++ operator ++ " " ++ right : Print) = _
    rw [hleft, hright]
    rfl
  have hle : assignmentLevel ≤ entry t memberLevel :=
    Nat.le_trans (by decide) (le_entry t (by decide))
  exact .intro hform (by simp) (hst.assignment hsu hoperator (by decide) hle
    (le_entry u (by decide)) (by decide))

/-- An operation is printed with its operator between its operands; the base of a power
may get parentheses that its strength does not ask for. -/
theorem binary_operation {left right : String} {place : Place}
    (hoperator : (operator, strength) ∈ operatorLevels)
    (hleft : rules.expression place (leftLevel operator strength) t = .ok left)
    (hright : rules.expression place (rightLevel operator strength) u = .ok right) :
    ∃ base, (base = left ∨ base = inParens left) ∧
      rules.binary place (operationNode operator t u) =
        .ok (base ++ " " ++ operator ++ " " ++ right) := by
  obtain ⟨kind, hkind, hnode⟩ := operationNode_cases operator t u
  have hown := precedence_operation hoperator t u
  rw [hnode] at hown ⊢
  have hform : rules.binary place
      (.node kind [("operator", .text operator), ("left", t), ("right", u)]) = (do
        let own ← precedence
          (.node kind [("operator", .text operator), ("left", t), ("right", u)])
        if operator = "**" then
          let left ← rules.expression place (own + 1) t
          let bare := ["UnaryExpression", "AwaitExpression"].any t.isKind &&
            left.toList.head? ≠ some '('
          let right ← rules.expression place own u
          return (if bare then inParens left else left) ++ " ** " ++ right
        else
          let left ← rules.expression place own t
          let right ← rules.expression place (own + 1) u
          return left ++ " " ++ operator ++ " " ++ right) := rfl
  rw [hform, hown]
  by_cases hpower : operator = "**"
  · subst hpower
    rw [leftLevel, if_pos rfl] at hleft
    rw [rightLevel, if_pos rfl] at hright
    refine ⟨if ["UnaryExpression", "AwaitExpression"].any t.isKind &&
      left.toList.head? ≠ some '(' then inParens left else left, ?_, ?_⟩
    · split
      · exact .inr rfl
      · exact .inl rfl
    · have hmark : " ** " = " " ++ "**" ++ " " := rfl
      simp only [hleft, hright, if_true, bind, Except.bind, pure, Except.pure, hmark,
        String.append_assoc]
  · rw [leftLevel, if_neg hpower] at hleft
    rw [rightLevel, if_neg hpower] at hright
    refine ⟨left, .inl rfl, ?_⟩
    simp only [if_neg hpower, hleft, hright, bind, Except.bind, pure, Except.pure]

theorem operation (ht : Prints rules.expression t) (hu : Prints rules.expression u)
    (hoperator : (operator, strength) ∈ operatorLevels) :
    Prints rules.expressionAt (operationNode operator t u) := by
  obtain ⟨kind, hkind, hnode⟩ := operationNode_cases operator t u
  have hneed : (operationNode operator t u).needKind = .ok kind := by rw [hnode]; rfl
  have hrule : rules.expressionForm? kind = some rules.binary := by
    rcases hkind with rfl | rfl <;> rfl
  have hexposed (place : Place) :
      ∃ exposed, Rules.isExposedIn place (operationNode operator t u) = .ok exposed := by
    rw [hnode, Rules.isExposedIn]
    split
    · exact ⟨_, rfl⟩
    · exact ⟨_, rfl⟩
  refine of_form strength hneed hrule (precedence_operation hoperator t u) hexposed fun place => ?_
  obtain ⟨hmember, hreach, hbefore, hbehind⟩ := operatorLevels_fit hoperator
  have hleft : strength ≤ leftLevel operator strength ∧
      leftLevel operator strength ≤ memberLevel := by
    unfold leftLevel
    split <;> omega
  have hright : rightLevel operator strength ≤ memberLevel := by
    unfold rightLevel
    split <;> omega
  obtain ⟨left, hprint, hst⟩ := ht place (leftLevel operator strength)
  obtain ⟨right, hprint', hsu⟩ := hu place (rightLevel operator strength)
  obtain ⟨base, hbase, hform⟩ := binary_operation hoperator hprint hprint'
  have hsbase : Spells base.toList t (leftLevel operator strength)
      (reach (leftLevel operator strength)) := by
    rcases hbase with rfl | rfl
    · exact hst.mono (le_entry t hleft.2) (Nat.le_refl _)
    · rw [toList_inParens]
      exact hst.group
  have hspells := hsbase.operation hsu hoperator hbefore hleft.1 (le_entry u hright) hbehind
  exact .intro hform (by simp)
    (hspells.mono (Nat.le_of_eq (if_pos hmember)) (Nat.le_of_eq hreach))

/-- Expressions between commas. -/
theorem each_spells (h : ∀ t ∈ ts, Prints rules.expression t) (place : Place) :
    ∃ texts, each (rules.expression place assignmentLevel) ts = .ok texts ∧
      SpellsEach (texts.map String.toList) ts := by
  induction ts with
  | nil => exact ⟨[], rfl, .nil⟩
  | cons t ts ih =>
    obtain ⟨text, htext, hspells⟩ := h t (by simp) place assignmentLevel
    obtain ⟨texts, htexts, hspellsEach⟩ := ih fun u hu => h u (by simp [hu])
    refine ⟨text :: texts, ?_, .cons ?_ hspellsEach⟩
    · simp only [each, htext, htexts, bind, Except.bind, pure, Except.pure]
    · exact hspells.mono (le_entry t (by decide)) (by decide)

theorem sequence (h : ∀ t ∈ ts, Prints rules.expression t) (hmany : 2 ≤ ts.length) :
    Prints rules.expressionAt (sequenceNode ts) := by
  refine of_form sequenceLevel rfl rfl rfl (not_exposed rfl) fun place => ?_
  obtain ⟨texts, htexts, hspells⟩ := each_spells h place
  have hform : rules.sequence place (sequenceNode ts) = .ok (String.intercalate ", " texts) := by
    change (do
      let texts ← each (rules.expression place assignmentLevel) ts
      return String.intercalate ", " texts : Print) = _
    rw [htexts]
    rfl
  refine .intro hform String.toList_intercalate ?_
  generalize texts.map String.toList = chars at hspells
  cases hspells with
  | nil => simp at hmany
  | @cons text t texts ts hfirst hrest =>
    have hne : ts ≠ [] := by
      rintro rfl
      simp at hmany
    exact hfirst.sequence hrest hne (by decide)

/-! ### Members and calls -/

/-- The chain a member belongs to starts where that of its object does. -/
theorem entry_memberNode (object property : Tree) (computed : Bool) :
    entry (Grammar.memberNode object property computed) memberLevel = entry object memberLevel := by
  have hchain :
      chainHasCall (Grammar.memberNode object property computed) = chainHasCall object := by
    simp [Grammar.memberNode, chainHasCall, chainHasCallIn]
  simp [entry, hchain]

/-- The object of an access, in parentheses if it is a number. -/
def objectText (object : Tree) (text : String) : String :=
  if object.isKind "Literal" && isDigits text then inParens text else text

theorem object_spells {text : String}
    (h : Spells text.toList t (entry t memberLevel) (reach memberLevel)) :
    Spells (objectText t text).toList t (entry t memberLevel) (reach memberLevel) := by
  unfold objectText
  split
  · rw [toList_inParens]
    exact h.group
  · exact h

theorem member {name : String} (h : Prints rules.expression t) (hname : isNameShaped name) :
    Prints rules.expressionAt (Grammar.memberNode t (Grammar.identifier name) false) := by
  refine of_form memberLevel rfl rfl rfl (not_exposed rfl) fun place => ?_
  obtain ⟨text, htext, hspells⟩ := h place memberLevel
  have hform : rules.access place (Grammar.memberNode t (Grammar.identifier name) false) =
      .ok (objectText t text ++ "." ++ name) := by
    change (do
      let text ← rules.expression place memberLevel t
      return objectText t text ++ "." ++ name : Print) = _
    rw [htext]
    rfl
  have hpart : ∀ c ∈ name.toList, isNamePart c := by
    simp only [isNameShaped, Bool.and_eq_true, List.all_eq_true] at hname
    exact hname.2
  rw [entry_memberNode]
  exact .intro hform (by simp)
    ((object_spells hspells).member (by decide) (entry_member_le t) hpart)

theorem index (ht : Prints rules.expression t) (hu : Prints rules.expression u) :
    Prints rules.expressionAt (Grammar.memberNode t u true) := by
  refine of_form memberLevel rfl rfl rfl (not_exposed rfl) fun place => ?_
  obtain ⟨text, htext, hst⟩ := ht place memberLevel
  obtain ⟨inner, hinner, hsu⟩ := hu place sequenceLevel
  have hform : rules.access place (Grammar.memberNode t u true) =
      .ok (objectText t text ++ "[" ++ inner ++ "]") := by
    change (do
      let text ← rules.expression place memberLevel t
      let inner ← rules.expression place sequenceLevel u
      return objectText t text ++ "[" ++ inner ++ "]" : Print) = _
    rw [htext, hinner]
    rfl
  rw [entry_memberNode]
  exact .intro hform (by simp) ((object_spells hst).index hsu (by decide) (entry_member_le t))

/-- The arguments of a call, none of which is missing. -/
theorem callArguments_spells (kind : String) (callee : Tree)
    (h : ∀ t ∈ ts, Prints rules.expression t) (hnull : ∀ t ∈ ts, t.isNull = false)
    (place : Place) :
    ∃ texts, rules.callArguments place (Grammar.callNode kind callee ts) =
        .ok (inParens (String.intercalate ", " texts)) ∧
      SpellsEach (texts.map String.toList) ts := by
  obtain ⟨texts, htexts, hspells⟩ := each_spells h place
  refine ⟨texts, ?_, hspells⟩
  have hfilter : (ts.filter fun t => !t.isNull) = ts :=
    List.filter_eq_self.2 fun t ht => by rw [hnull t ht]; rfl
  have hitems : ((Grammar.callNode kind callee ts).get "arguments").items = .ok ts :=
    Tree.items_list ts
  simp only [Rules.callArguments, hitems, Rules.arguments, hfilter, htexts, bind, Except.bind,
    pure, Except.pure]

theorem call (h : Prints rules.expression t) (hts : ∀ t ∈ ts, Prints rules.expression t)
    (hnull : ∀ t ∈ ts, t.isNull = false) :
    Prints rules.expressionAt (Grammar.callNode "CallExpression" t ts) := by
  refine of_form memberLevel rfl rfl rfl (not_exposed rfl) fun place => ?_
  obtain ⟨text, htext, hspells⟩ := h place memberLevel
  obtain ⟨texts, htexts, hsts⟩ := callArguments_spells "CallExpression" t hts hnull place
  have hform : rules.call place (Grammar.callNode "CallExpression" t ts) =
      .ok (text ++ inParens (String.intercalate ", " texts)) := by
    change (do
      let callee ← rules.expression place memberLevel t
      let args ← rules.callArguments place (Grammar.callNode "CallExpression" t ts)
      return callee ++ args : Print) = _
    rw [htext, htexts]
    rfl
  exact .intro hform (by simp [toList_inParens, joined])
    (hspells.call hsts (by decide) (le_entry t (Nat.le_refl _)))

theorem new (h : Prints rules.expression t) (hts : ∀ t ∈ ts, Prints rules.expression t)
    (hnull : ∀ t ∈ ts, t.isNull = false) :
    Prints rules.expressionAt (Grammar.callNode "NewExpression" t ts) := by
  refine of_form memberLevel rfl rfl rfl (not_exposed rfl) fun place => ?_
  obtain ⟨text, htext, hspells⟩ := h place memberLevel
  obtain ⟨texts, htexts, hsts⟩ := callArguments_spells "NewExpression" t hts hnull place
  have hform : rules.new place (Grammar.callNode "NewExpression" t ts) =
      .ok ("new " ++ (if chainHasCall t then inParens text else text) ++
        inParens (String.intercalate ", " texts)) := by
    change (do
      let callee ← rules.expression place memberLevel t
      let args ← rules.callArguments place (Grammar.callNode "NewExpression" t ts)
      return "new " ++ (if chainHasCall t then inParens callee else callee) ++ args : Print) = _
    rw [htext, htexts]
    rfl
  have hcallee : Spells (if chainHasCall t then inParens text else text).toList t primaryLevel
      (reach memberLevel) := by
    cases hchain : chainHasCall t with
    | true =>
      rw [if_pos rfl, toList_inParens]
      exact hspells.group
    | false =>
      rw [if_neg (by decide)]
      exact hspells.mono (Nat.le_of_eq (entry_member hchain).symm) (Nat.le_refl _)
  exact .intro hform (by simp [toList_inParens, joined])
    (hcallee.new (Nat.le_refl _) (by decide) hsts)

end Prints

/-! ## Every operator tree -/

theorem depth_le_depthItems {ts : List Tree} {t : Tree} (h : t ∈ ts) :
    t.depth ≤ Tree.depthItems ts := by
  induction ts with
  | nil => cases h
  | cons u ts ih =>
    rw [Tree.depthItems]
    rcases List.mem_cons.1 h with rfl | h
    · exact Nat.le_max_left _ _
    · exact Nat.le_trans (ih h) (Nat.le_max_right _ _)

theorem depth_le_depthFields {fields : List (String × Tree)} {field : String × Tree}
    (h : field ∈ fields) : field.2.depth ≤ Tree.depthFields fields := by
  induction fields with
  | nil => cases h
  | cons first fields ih =>
    rw [Tree.depthFields]
    rcases List.mem_cons.1 h with rfl | h
    · exact Nat.le_max_left _ _
    · exact Nat.le_trans (ih h) (Nat.le_max_right _ _)

/-- Rules for the depth of a node are one step above rules for the depth of its fields. -/
theorem exists_rules {kind : String} {fields : List (String × Tree)} {n : Nat}
    (h : (Tree.node kind fields).depth < n) :
    ∃ m, n = m + 1 ∧ ∀ field ∈ fields, field.2.depth < m := by
  rw [Tree.depth] at h
  refine ⟨n - 1, by omega, fun field hfield => ?_⟩
  have := depth_le_depthFields hfield
  omega

theorem depth_lt_of_mem {ts : List Tree} {t : Tree} {n : Nat} (h : (Tree.list ts).depth < n)
    (ht : t ∈ ts) : t.depth < n := by
  rw [Tree.depth] at h
  have := depth_le_depthItems ht
  omega

namespace OperatorTree

theorem isNull_eq_false {t : Tree} (h : OperatorTree t) : t.isNull = false := by
  cases h <;> rfl

/-- Rules for its depth print an operator tree, and the text is read back. -/
theorem prints {t : Tree} (h : OperatorTree t) (indent : String) {n : Nat} (hn : t.depth < n) :
    Prints (rules indent n).expression t := by
  induction h generalizing n with
  | name hname hfree =>
    obtain ⟨m, rfl, -⟩ := exists_rules hn
    exact Prints.name hname hfree
  | number hne hdigits =>
    obtain ⟨m, rfl, -⟩ := exists_rules hn
    exact Prints.number hne hdigits
  | @unary operator argument hoperator _ ih =>
    obtain ⟨m, rfl, hfields⟩ := exists_rules hn
    exact Prints.unary (ih (hfields ("argument", argument) (by simp))) hoperator
  | @update operator argument hoperator before _ ih =>
    obtain ⟨m, rfl, hfields⟩ := exists_rules hn
    exact Prints.update (ih (hfields ("argument", argument) (by simp))) hoperator before
  | @operation operator strength left right hoperator _ _ ihleft ihright =>
    obtain ⟨m, rfl, hfields⟩ := exists_rules hn
    exact Prints.operation (ihleft (hfields ("left", left) (by simp)))
      (ihright (hfields ("right", right) (by simp))) hoperator
  | @choice test consequent alternate _ _ _ ihtest ihconsequent ihalternate =>
    obtain ⟨m, rfl, hfields⟩ := exists_rules hn
    exact Prints.choice (ihtest (hfields ("test", test) (by simp)))
      (ihconsequent (hfields ("consequent", consequent) (by simp)))
      (ihalternate (hfields ("alternate", alternate) (by simp)))
  | @assignment operator left right hoperator _ _ ihleft ihright =>
    obtain ⟨m, rfl, hfields⟩ := exists_rules hn
    exact Prints.assignment (ihleft (hfields ("left", left) (by simp)))
      (ihright (hfields ("right", right) (by simp))) hoperator
  | @sequence exprs hmany _ ih =>
    obtain ⟨m, rfl, hfields⟩ := exists_rules hn
    have hlist := hfields ("expressions", .list exprs) (by simp)
    exact Prints.sequence (fun t ht => ih t ht (depth_lt_of_mem hlist ht)) hmany
  | @member object name _ hname ih =>
    obtain ⟨m, rfl, hfields⟩ := exists_rules hn
    exact Prints.member (ih (hfields ("object", object) (by simp))) hname
  | @index object property _ _ ihobject ihproperty =>
    obtain ⟨m, rfl, hfields⟩ := exists_rules hn
    exact Prints.index (ihobject (hfields ("object", object) (by simp)))
      (ihproperty (hfields ("property", property) (by simp)))
  | @call callee args _ hargs ihcallee ihargs =>
    obtain ⟨m, rfl, hfields⟩ := exists_rules hn
    have hlist := hfields ("arguments", .list args) (by simp)
    exact Prints.call (ihcallee (hfields ("callee", callee) (by simp)))
      (fun t ht => ihargs t ht (depth_lt_of_mem hlist ht))
      (fun t ht => (hargs t ht).isNull_eq_false)
  | @new callee args _ hargs ihcallee ihargs =>
    obtain ⟨m, rfl, hfields⟩ := exists_rules hn
    have hlist := hfields ("arguments", .list args) (by simp)
    exact Prints.new (ihcallee (hfields ("callee", callee) (by simp)))
      (fun t ht => ihargs t ht (depth_lt_of_mem hlist ht))
      (fun t ht => (hargs t ht).isNull_eq_false)

end OperatorTree

/-- The text of an operator tree is the text of no other one, wherever the two stand. -/
theorem expression_determines_tree {a b : Tree} (ha : OperatorTree a) (hb : OperatorTree b)
    (indent : String) (place place' : Place) (minimum minimum' : Nat) {m n : Nat}
    (hm : a.depth < m) (hn : b.depth < n) :
    ∃ text, (rules indent m).expression place minimum a = .ok text ∧
      ((rules indent n).expression place' minimum' b = .ok text → a = b) := by
  obtain ⟨text, hprint, hspells⟩ := ha.prints indent hm place minimum
  refine ⟨text, hprint, fun hsame => ?_⟩
  obtain ⟨text', hprint', hspells'⟩ := hb.prints indent hn place' minimum'
  rw [hsame] at hprint'
  cases hprint'
  -- Read from the start to the end, the text gives either tree.
  have hread : Reads sequenceLevel (text.toList ++ []) a [] :=
    hspells.reads (Nat.zero_le _) (Nat.zero_le _) Stops.nil
  have hread' : Reads sequenceLevel (text.toList ++ []) b [] :=
    hspells'.reads (Nat.zero_le _) (Nat.zero_le _) Stops.nil
  exact (hread.unique hread').1

/-- `new (f().g)(1)` and `new f().g(1)`: only the parentheses tell what is constructed. -/
theorem expression_determines_constructor :
    OperatorTree
      (Grammar.callNode "NewExpression"
        (Grammar.memberNode (Grammar.callNode "CallExpression" (Grammar.identifier "f") [])
          (Grammar.identifier "g") false) [numberNode "1"]) ∧
    OperatorTree
      (Grammar.callNode "CallExpression"
        (Grammar.memberNode (Grammar.callNode "NewExpression" (Grammar.identifier "f") [])
          (Grammar.identifier "g") false) [numberNode "1"]) ∧
    (rules defaultIndent 5).expression ⟨0, false⟩ sequenceLevel
      (Grammar.callNode "NewExpression"
        (Grammar.memberNode (Grammar.callNode "CallExpression" (Grammar.identifier "f") [])
          (Grammar.identifier "g") false) [numberNode "1"]) ≠
    (rules defaultIndent 5).expression ⟨0, false⟩ sequenceLevel
      (Grammar.callNode "CallExpression"
        (Grammar.memberNode (Grammar.callNode "NewExpression" (Grammar.identifier "f") [])
          (Grammar.identifier "g") false) [numberNode "1"]) := by
  have hf : OperatorTree (Grammar.identifier "f") := .name (by decide +kernel) (by decide)
  have hnone : ∀ arg ∈ ([] : List Tree), OperatorTree arg := by simp
  have hone : ∀ arg ∈ [numberNode "1"], OperatorTree arg := by
    simpa using OperatorTree.number (by decide) (by decide)
  have hg : isNameShaped "g" := by decide +kernel
  have hnew := OperatorTree.new (.member (.call hf hnone) hg) hone
  have hcall := OperatorTree.call (.member (.new hf hnone) hg) hone
  refine ⟨hnew, hcall, fun hsame => ?_⟩
  obtain ⟨text, htext, heq⟩ := expression_determines_tree hnew hcall defaultIndent ⟨0, false⟩
    ⟨0, false⟩ sequenceLevel sequenceLevel (m := 5) (n := 5) (by decide) (by decide)
  have htrees := heq (hsame ▸ htext)
  simp [Grammar.callNode] at htrees

end NameRecovery.Printer
