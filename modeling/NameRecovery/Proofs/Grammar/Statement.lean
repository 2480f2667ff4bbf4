import NameRecovery.Grammar.Program
import NameRecovery.Proofs.Grammar.Expression

/-!
# The parser yields formed programs

* `statement_yields`, `item_yields` — statements, declarations, imports and exports;
* `rules_formed` — what the rules yield is formed, whatever their budget;
* `isProgram_of_parse` — a parsed text is a formed program.
-/

namespace NameRecovery.Grammar

open Source NameRecovery.Tree

variable {rules : Rules}

/-! ## Declarations -/

theorem declaratorNode_isA {id init : Tree} (hid : IsA expressionKinds id)
    (hinit : IsElement expressionKinds init) : IsA ["VariableDeclarator"] (declaratorNode id init) :=
  isA_node (by repeat constructor) (.cons hid.one (.cons (holds_maybe_iff.2 hinit) .nil))

theorem declarationNode_isA (kind : String) {declarations : List Tree}
    (h : ∀ t ∈ declarations, IsA ["VariableDeclarator"] t) :
    IsA ["VariableDeclaration"] (declarationNode kind declarations) :=
  isA_node (by repeat constructor) (.cons (holds_text kind) (.cons (holds_many_iff.2 h) .nil))

theorem commaList_yields {one : Parse Tree} {P : Tree → Prop} (h : Yields one P) :
    Yields (commaList rules one) fun ts => ∀ t ∈ ts, P t := by
  unfold commaList
  refine .bind h fun first hfirst => .bind (collect_yields (P := P) ?_ _) fun rest hrest => ?_
  · refine .skip fun _ => .ite (fun _ => ?_) fun _ => .pure (ofSome_none _)
    exact .bind h fun t ht => .pure (ofSome_some ht)
  · exact .pure (List.forall_mem_cons.2 ⟨hfirst, hrest⟩)

theorem variableDeclarator_yields (h : rules.Formed) (inFor : Bool) :
    Yields (variableDeclarator rules inFor) (IsA ["VariableDeclarator"]) := by
  unfold variableDeclarator
  refine .bind (h.pattern _) fun r hid => .skip fun _ => .skip fun _ => .ite (fun _ => ?_) fun _ => ?_
  · refine .bind h.assignment.isolated fun init hinit => .pure ?_
    exact declaratorNode_isA hid (.inr hinit)
  · exact .when fun _ => .pure (declaratorNode_isA hid (.inl rfl))

theorem lexicalDeclarator_yields (h : rules.Formed) (kind : String) (inFor : Bool) :
    Yields (lexicalDeclarator rules kind inFor) (IsA ["VariableDeclarator"]) := by
  unfold lexicalDeclarator
  refine .bind (h.pattern _) fun r hid => .skip fun _ => ?_
  have hplain := declaratorNode_isA hid (.inl rfl)
  have hwith : Yields (do return declaratorNode r.1 (← isolated rules.assignment))
      (IsA ["VariableDeclarator"]) :=
    .bind h.assignment.isolated fun init hinit => .pure (declaratorNode_isA hid (.inr hinit))
  refine .ite (fun _ => .skip fun _ => .skip fun _ => .ite (fun _ => .pure hplain) fun _ => ?_) ?_
  · exact .skip fun _ => .ite (fun _ => hwith) fun _ => complain_yields _
  · refine fun _ => .skip fun _ => .ite (fun _ => .skip fun _ => hwith) fun _ => .pure hplain

theorem lexicalDeclaration_yields (h : rules.Formed) :
    Yields (lexicalDeclaration rules) (IsA ["VariableDeclaration"]) := by
  unfold lexicalDeclaration
  refine .skip fun token => .bind (commaList_yields (lexicalDeclarator_yields h _ false)) ?_
  exact fun declarations hdeclarations => .skip fun _ => .pure (declarationNode_isA _ hdeclarations)

theorem variableStatement_yields (h : rules.Formed) :
    Yields (variableStatement rules) (IsA keywordKinds) := by
  unfold variableStatement
  refine .skip fun _ => .bind (commaList_yields (variableDeclarator_yields h false)) ?_
  exact fun declarations hdeclarations => .skip fun _ =>
    .pure ((declarationNode_isA "var" hdeclarations).mono (by decide))

/-! ## Blocks and branches -/

theorem blockStatement_yields (h : rules.Formed) :
    Yields (blockStatement rules) (IsA ["BlockStatement"]) := by
  unfold blockStatement
  refine .skip fun _ => .bind (collect_yields (P := IsA statementKinds) ?_ _) fun body hbody => ?_
  · refine .skip fun _ => .ite (fun _ => .pure (ofSome_none _)) fun _ => ?_
    exact .bind h.item fun t ht => .pure (ofSome_some ht)
  · exact .skip fun _ => .pure (block_isA hbody)

theorem expressionStatement_yields (h : rules.Formed) :
    Yields (expressionStatement rules) (IsA statementKinds) := by
  unfold expressionStatement
  refine .bind (expression_yields h) fun expr hexpr => .skip fun _ => ?_
  exact .pure (expressionStatement_isA hexpr)

theorem ifBranch_yields (h : rules.Formed) : Yields (ifBranch rules) (IsA statementKinds) := by
  unfold ifBranch
  exact .skip fun _ => .skip fun _ => .when fun _ => h.statement

theorem headExpression_yields (h : rules.Formed) (keyword : String) :
    Yields (headExpression rules keyword) (IsA expressionKinds) := by
  unfold headExpression
  refine .skip fun _ => .skip fun _ => .bind (expression_yields h) fun expr hexpr => ?_
  exact .skip fun _ => .pure hexpr

theorem ifStatement_yields (h : rules.Formed) :
    Yields (ifStatement rules) (IsA keywordKinds) := by
  unfold ifStatement
  refine .bind (headExpression_yields h _) fun test htest => ?_
  refine .bind (ifBranch_yields h) fun consequent hconsequent => .skip fun _ => ?_
  extract_lets rest
  have hrest : ∀ alternate, IsElement statementKinds alternate →
      Yields (rest alternate) (IsA keywordKinds) := by
    intro alternate halternate
    refine .pure (isA_node (by repeat constructor) ?_)
    exact .cons htest.one (.cons hconsequent.one (.cons (holds_maybe_iff.2 halternate) .nil))
  refine .ite (fun _ => .skip fun _ => ?_) fun _ => .bind (.pure (.inl rfl)) hrest
  exact .bind ((ifBranch_yields h).mono fun _ => .inr) hrest

theorem Yields.loopBody {body : Parse Tree} {P : Tree → Prop} (h : Yields body P) :
    Yields (loopBody body) P := by
  unfold Grammar.loopBody
  exact .skip fun _ => .skip fun _ => .bind h fun t ht => .skip fun _ => .pure ht

theorem doWhileStatement_yields (h : rules.Formed) :
    Yields (doWhileStatement rules) (IsA keywordKinds) := by
  unfold doWhileStatement
  refine .skip fun _ => .bind h.statement.loopBody fun body hbody => ?_
  refine .bind (headExpression_yields h _) fun test htest => .skip fun _ => .pure ?_
  exact isA_node (by repeat constructor) (.cons hbody.one (.cons htest.one .nil))

theorem whileStatement_yields (h : rules.Formed) :
    Yields (whileStatement rules) (IsA keywordKinds) := by
  unfold whileStatement
  refine .bind (headExpression_yields h _) fun test htest => ?_
  refine .bind h.statement.loopBody fun body hbody => .pure ?_
  exact isA_node (by repeat constructor) (.cons htest.one (.cons hbody.one .nil))

/-! ## Loops with `for` -/

/-- The kinds of what a loop starts with or assigns to. -/
def loopKinds : List String :=
  "VariableDeclaration" :: expressionKinds

/-- Are the parts of the head of a loop formed? -/
def ForHead.Formed : ForHead → Prop
  | .forIn left right | .forOf left right => IsA loopKinds left ∧ IsA expressionKinds right
  | .counted init => IsElement loopKinds init

theorem forIn_head_yields (h : rules.Formed) {left : Tree} (hleft : IsA loopKinds left) :
    Yields (forIn rules left) ForHead.Formed := by
  unfold Grammar.forIn
  exact .skip fun _ => .bind (expression_yields h) fun right hright => .pure ⟨hleft, hright⟩

theorem forOf_head_yields (h : rules.Formed) {left : Tree} (hleft : IsA loopKinds left) :
    Yields (forOf rules left) ForHead.Formed := by
  unfold forOf
  exact .skip fun _ => .bind h.assignment fun right hright => .pure ⟨hleft, hright⟩

theorem Yields.withoutIn {α : Type} {p : Parse α} {P : α → Prop} (h : Yields p P) :
    Yields (withoutIn p) P := by
  unfold Grammar.withoutIn
  exact .skip fun _ => .skip fun _ => .bind h fun t ht => .skip fun _ => .pure ht

theorem forVar_yields (h : rules.Formed) : Yields (forVar rules) ForHead.Formed := by
  unfold forVar
  refine .skip fun _ => .bind (commaList_yields (variableDeclarator_yields h true)).withoutIn ?_
  intro declarations hdeclarations
  have hinit : IsA loopKinds (declarationNode "var" declarations) :=
    (declarationNode_isA "var" hdeclarations).mono (by decide)
  dsimp only
  split
  · refine .skip fun _ => .ite (fun _ => .skip fun _ => ?_) fun _ => .skip fun _ => ?_
    · exact .when fun _ => forIn_head_yields h hinit
    · exact .ite (fun _ => forOf_head_yields h hinit) fun _ => .skip fun _ => .pure (.inr hinit)
  · exact .skip fun _ => .pure (.inr hinit)

theorem forLexical_yields (h : rules.Formed) : Yields (forLexical rules) ForHead.Formed := by
  unfold forLexical
  refine .skip fun token => .skip fun _ => .skip fun _ => .ite (fun _ => ?_) fun _ => ?_
  · exact forIn_head_yields h ((identifier_isExpression _).mono (List.subset_cons_self _ _))
  refine .bind (commaList_yields (lexicalDeclarator_yields h _ true)).withoutIn ?_
  intro declarations hdeclarations
  have hinit : IsA loopKinds (declarationNode token.spelling declarations) :=
    (declarationNode_isA _ hdeclarations).mono (by decide)
  dsimp only
  split
  · refine .skip fun _ => .ite (fun _ => forIn_head_yields h hinit) fun _ => .skip fun _ => ?_
    exact .ite (fun _ => forOf_head_yields h hinit) fun _ => .skip fun _ => .pure (.inr hinit)
  · exact .skip fun _ => .pure (.inr hinit)

theorem forExpression_yields (h : rules.Formed) : Yields (forExpression rules) ForHead.Formed := by
  unfold forExpression
  refine .bind h.assignment.inherited.withoutIn fun init hinit => .skip fun _ => ?_
  have hloop : ∀ {t}, IsA expressionKinds t → IsA loopKinds t :=
    fun ht => ht.mono (List.subset_cons_self _ _)
  have htarget := hloop (asPattern_isA hinit)
  refine .ite (fun _ => .skip fun _ => forIn_head_yields h htarget) fun _ => .skip fun _ => ?_
  refine .ite (fun _ => .skip fun _ => forOf_head_yields h htarget) fun _ => .skip fun _ => ?_
  extract_lets rest
  have hrest : ∀ init, IsA expressionKinds init → Yields (rest init) ForHead.Formed :=
    fun init hinit => .skip fun _ => .pure (.inr (hloop hinit))
  refine .ite (fun _ => ?_) fun _ => .bind (.pure hinit) hrest
  refine .bind (commaTail_yields h) fun more hmore => ?_
  exact .bind (.pure (sequence_isA hinit hmore)) hrest

theorem forHead_yields (h : rules.Formed) : Yields (forHead rules) ForHead.Formed := by
  unfold forHead
  refine .skip fun _ => .ite (fun _ => .pure (.inl rfl)) fun _ => .skip fun _ => ?_
  refine .ite (fun _ => forVar_yields h) fun _ => .skip fun _ => .skip fun _ => ?_
  exact .ite (fun _ => forLexical_yields h) fun _ => forExpression_yields h

theorem forStatement_yields (h : rules.Formed) :
    Yields (forStatement rules) (IsA keywordKinds) := by
  unfold forStatement
  refine .skip fun _ => .skip fun _ => .bind (forHead_yields h) fun head hhead => ?_
  extract_lets body
  have hbody : Yields body (IsA statementKinds) := .skip fun _ => h.statement.isolated.loopBody
  cases head with
  | forIn left right =>
      refine .bind hbody fun body hbody => .pure (isA_node (by repeat constructor) ?_)
      exact .cons hhead.1.one (.cons hhead.2.one (.cons hbody.one (.cons (holds_flag _) .nil)))
  | forOf left right =>
      refine .bind hbody fun body hbody => .pure (isA_node (by repeat constructor) ?_)
      exact .cons hhead.1.one (.cons hhead.2.one (.cons hbody.one .nil))
  | counted init =>
      have hpart : Yields (expression rules) (IsElement expressionKinds) :=
        (expression_yields h).mono fun _ => .inr
      have hnone : Yields (pure .null) (IsElement expressionKinds) := .pure (.inl rfl)
      refine .skip fun _ => .branch (IsElement expressionKinds) (fun _ => hnone) (fun _ => hpart) ?_
      intro test htest
      refine .skip fun _ => .skip fun _ => ?_
      refine .branch (IsElement expressionKinds) (fun _ => hnone) (fun _ => hpart) ?_
      intro update hupdate
      refine .bind hbody fun body hbody => .pure (isA_node (by repeat constructor) ?_)
      exact .cons (holds_maybe_iff.2 hhead) (.cons (holds_maybe_iff.2 htest)
        (.cons (holds_maybe_iff.2 hupdate) (.cons hbody.one .nil)))

/-! ## Jumps -/

theorem jumpLabel_yields : Yields jumpLabel (OfSome (IsA ["Identifier"])) := by
  unfold jumpLabel
  refine .skip fun token => ?_
  split
  · refine .skip fun _ => .ite (fun _ => .pure (ofSome_none _)) fun _ => ?_
    refine .bind (variableName_yields none) fun label hlabel => .skip fun _ => .when fun _ => ?_
    exact .pure (ofSome_some hlabel)
  · exact .pure (ofSome_none _)

theorem continueStatement_yields : Yields continueStatement (IsA keywordKinds) := by
  unfold continueStatement
  refine .skip fun _ => .bind jumpLabel_yields fun label hlabel => .skip fun _ => .skip fun _ => ?_
  exact .when fun _ => .pure (isA_node (by repeat constructor) (.cons (optional_holds hlabel) .nil))

theorem breakStatement_yields : Yields breakStatement (IsA keywordKinds) := by
  unfold breakStatement
  refine .skip fun _ => .bind jumpLabel_yields fun label hlabel => .skip fun _ => .skip fun _ => ?_
  exact .when fun _ => .pure (isA_node (by repeat constructor) (.cons (optional_holds hlabel) .nil))

theorem returnStatement_yields (h : rules.Formed) :
    Yields (returnStatement rules) (IsA keywordKinds) := by
  unfold returnStatement
  refine .skip fun _ => .when fun _ => .skip fun _ => .skip fun token => .skip fun _ => ?_
  refine .branch (IsElement expressionKinds) (fun _ => (expression_yields h).mono fun _ => .inr)
    (fun _ => .pure (.inl rfl)) fun argument hargument => .skip fun _ => .pure ?_
  exact isA_node (by repeat constructor) (.cons (holds_maybe_iff.2 hargument) .nil)

theorem throwStatement_yields (h : rules.Formed) :
    Yields (throwStatement rules) (IsA keywordKinds) := by
  unfold throwStatement
  refine .skip fun _ => .skip fun _ => .when fun _ => ?_
  refine .bind (expression_yields h) fun argument hargument => .skip fun _ => .pure ?_
  exact isA_node (by repeat constructor) (.cons hargument.one .nil)

/-! ## Other statements -/

theorem withStatement_yields (h : rules.Formed) :
    Yields (withStatement rules) (IsA keywordKinds) := by
  unfold withStatement
  refine .skip fun _ => .when fun _ => .bind (headExpression_yields h _) fun object hobject => ?_
  refine .bind h.statement fun body hbody => .pure ?_
  exact isA_node (by repeat constructor) (.cons hobject.one (.cons hbody.one .nil))

theorem switchCase_yields (h : rules.Formed) : Yields (switchCase rules) (IsA ["SwitchCase"]) := by
  unfold switchCase
  refine .skip fun _ => ?_
  extract_lets rest
  have hrest : ∀ test, IsElement expressionKinds test → Yields (rest test) (IsA ["SwitchCase"]) := by
    intro test htest
    refine .skip fun _ => .bind (collect_yields (P := IsA statementKinds) ?_ _) ?_
    · refine .skip fun _ => .skip fun _ => .skip fun _ => .ite (fun _ => ?_) fun _ => ?_
      · exact .pure (ofSome_none _)
      · exact .bind h.item fun t ht => .pure (ofSome_some ht)
    · intro consequent hconsequent
      refine .pure (isA_node (by repeat constructor) ?_)
      exact .cons (holds_maybe_iff.2 htest) (.cons (holds_many_iff.2 hconsequent) .nil)
  refine .ite (fun _ => .skip fun _ => .bind (.pure (.inl rfl)) hrest) fun _ => .skip fun _ => ?_
  exact .bind ((expression_yields h).mono fun _ => .inr) hrest

theorem switchCases_yields (h : rules.Formed) (budget : Nat) (hasDefault : Bool) :
    Yields (switchCases rules budget hasDefault) fun ts => ∀ t ∈ ts, IsA ["SwitchCase"] t := by
  induction budget generalizing hasDefault with
  | zero => exact complain_yields _
  | succ budget ih =>
      unfold switchCases
      refine .skip fun _ => .ite (fun _ => .pure nofun) fun _ => ?_
      refine .bind (switchCase_yields h) fun clause hclause => .when fun _ => ?_
      exact .bind (ih _) fun rest hrest => .pure (List.forall_mem_cons.2 ⟨hclause, hrest⟩)

theorem switchStatement_yields (h : rules.Formed) :
    Yields (switchStatement rules) (IsA keywordKinds) := by
  unfold switchStatement
  refine .bind (headExpression_yields h _) fun discriminant hdiscriminant => .skip fun _ => ?_
  refine .skip fun _ => .skip fun _ => .bind (switchCases_yields h _ false) fun cases hcases => ?_
  refine .skip fun _ => .skip fun _ => .pure ?_
  exact isA_node (by repeat constructor)
    (.cons hdiscriminant.one (.cons (holds_many_iff.2 hcases) .nil))

theorem catchClause_yields (h : rules.Formed) :
    Yields (catchClause rules) (IsA ["CatchClause"]) := by
  unfold catchClause
  refine .skip fun _ => .skip fun _ => .skip fun _ => .whenWith fun _ => ?_
  refine .bind (h.pattern none) fun r hparam => .skip fun _ => .skip fun _ => .skip fun _ => ?_
  refine .bind (blockStatement_yields h) fun body hbody => .pure ?_
  exact isA_node (by repeat constructor) (.cons hparam.one (.cons hbody.one .nil))

theorem tryStatement_yields (h : rules.Formed) :
    Yields (tryStatement rules) (IsA keywordKinds) := by
  unfold tryStatement
  refine .skip fun _ => .bind (blockStatement_yields h) fun body hbody => .skip fun _ => ?_
  refine .branch (IsElement ["CatchClause"]) (fun _ => (catchClause_yields h).mono fun _ => .inr)
    (fun _ => .pure (.inl rfl)) fun handler hhandler => .skip fun _ => ?_
  extract_lets rest
  have hrest : ∀ finalizer, IsElement ["BlockStatement"] finalizer →
      Yields (rest finalizer) (IsA keywordKinds) := by
    intro finalizer hfinalizer
    refine .when fun _ => .pure (isA_node (by repeat constructor) ?_)
    exact .cons hbody.one (.cons (holds_maybe_iff.2 hhandler)
      (.cons (holds_maybe_iff.2 hfinalizer) .nil))
  refine .ite (fun _ => .skip fun _ => ?_) fun _ => .bind (.pure (.inl rfl)) hrest
  exact .bind ((blockStatement_yields h).mono fun _ => .inr) hrest

theorem functionDeclaration_isStatement (h : rules.Formed) (nameOptional : Bool) :
    Yields (functionDeclaration rules nameOptional) (IsA statementKinds) :=
  (functionDeclaration_yields h nameOptional).mono fun _ ht => ht.mono (by decide)

theorem labelledBody_yields (h : rules.Formed) :
    Yields (labelledBody rules) (IsA statementKinds) := by
  unfold labelledBody
  refine .skip fun token => .ite (fun _ => unexpected_yields token) fun _ => .ite (fun _ => ?_) ?_
  · refine .bind (functionDeclaration_isStatement h false) fun declaration hdeclaration => ?_
    exact .skip fun _ => .when fun _ => .when fun _ => .pure hdeclaration
  · exact fun _ => h.statement

theorem isKind_of_identifierName {t : Tree} {name : String} (h : identifierName? t = some name) :
    t.isKind "Identifier" = true := by
  unfold identifierName? at h
  split at h
  · rfl
  · cases h

theorem labelledStatement_yields (h : rules.Formed) :
    Yields (labelledStatement rules) (IsA statementKinds) := by
  unfold labelledStatement
  refine .bind (expression_yields h) fun expr hexpr => .skip fun _ => ?_
  split
  · rename_i hname
    have hlabel := isA_of_isKind hexpr (isKind_of_identifierName hname)
    refine .skip fun _ => .skip fun _ => .when fun _ => .skip fun _ => ?_
    refine .bind (labelledBody_yields h) fun body hbody => .skip fun _ => .pure ?_
    exact isA_node (by repeat constructor) (.cons hlabel.one (.cons hbody.one .nil))
  · exact .skip fun _ => .pure (expressionStatement_isA hexpr)

/-- A statement that starts with a keyword is one of those, or an expression. -/
theorem keywordStatement_cases (h : rules.Formed) (text : String) :
    Yields (keywordStatement rules text) (IsA keywordKinds) ∨
      keywordStatement rules text = expressionStatement rules := by
  unfold keywordStatement
  split
  · exact .inl breakStatement_yields
  · exact .inl continueStatement_yields
  · exact .inl (.skip fun _ => .skip fun _ => .pure (isA_node (by repeat constructor) .nil))
  · exact .inl (doWhileStatement_yields h)
  · exact .inl (forStatement_yields h)
  · exact .inl ((functionDeclaration_yields h false).mono fun _ ht => ht.mono (by decide))
  · exact .inl (ifStatement_yields h)
  · exact .inl (returnStatement_yields h)
  · exact .inl (switchStatement_yields h)
  · exact .inl (throwStatement_yields h)
  · exact .inl (tryStatement_yields h)
  · exact .inl (variableStatement_yields h)
  · exact .inl (whileStatement_yields h)
  · exact .inl (withStatement_yields h)
  · exact .inr rfl

theorem keywordStatement_yields (h : rules.Formed) (text : String) :
    Yields (keywordStatement rules text) (IsA statementKinds) := by
  rcases keywordStatement_cases h text with hkeyword | hexpression
  · exact hkeyword.mono fun _ ht => ht.mono (by decide)
  · rw [hexpression]
    exact expressionStatement_yields h

theorem statement_yields (h : rules.Formed) : Yields (statement rules) (IsA statementKinds) := by
  unfold statement
  refine .skip fun token => ?_
  split
  · exact (blockStatement_yields h).mono fun _ ht => ht.mono (by decide)
  · exact .skip fun _ => .pure (isA_node (by repeat constructor) .nil)
  · refine .skip fun _ => .ite (fun _ => functionDeclaration_isStatement h false) fun _ => ?_
    exact labelledStatement_yields h
  · exact keywordStatement_yields h _
  · exact unexpected_yields token
  · exact expressionStatement_yields h

/-! ## Imports -/

theorem moduleSpecifier_yields : Yields moduleSpecifier (IsA ["Literal"]) := by
  unfold moduleSpecifier
  refine .skip fun token => ?_
  split
  · exact .skip fun token => .pure (literal_isA token)
  · exact complain_yields _

theorem complainNoFrom_yields {α : Type} {Q : α → Prop} : Yields complainNoFrom Q :=
  .skip fun _ => complain_yields _

theorem fromClause_yields : Yields fromClause (IsA ["Literal"]) := by
  unfold fromClause
  refine .skip fun _ => .ite (fun _ => .skip fun _ => moduleSpecifier_yields) fun _ => ?_
  exact complainNoFrom_yields

theorem braceList_yields {one : Parse Tree} {P : Tree → Prop} (h : Yields one P) :
    Yields (braceList rules one) fun ts => ∀ t ∈ ts, P t := by
  unfold braceList
  refine .skip fun _ => .bind (collect_yields (P := P) ?_ _) fun items hitems => ?_
  · refine .skip fun _ => .ite (fun _ => .pure (ofSome_none _)) fun _ => ?_
    exact .bind h fun item hitem => .skip fun _ => .when fun _ => .pure (ofSome_some hitem)
  · exact .skip fun _ => .pure hitems

theorem importSpecifier_yields : Yields importSpecifier (IsA importKinds) := by
  unfold importSpecifier
  refine .skip fun token => .branch (IsA ["Identifier"]) (fun _ => variableName_yields none)
    (fun _ => anyWord_yields) fun imported himported => .skip fun _ => ?_
  extract_lets rest
  have hrest : ∀ localName, IsA ["Identifier"] localName →
      Yields (rest localName) (IsA importKinds) := fun localName hlocal =>
    .pure (isA_node (by repeat constructor) (.cons himported.one (.cons hlocal.one .nil)))
  refine .ite (fun _ => .skip fun _ => .bind (variableName_yields none) hrest) fun _ => ?_
  refine .ite (fun _ => .bind (.pure himported) hrest) fun _ => .skip fun token => ?_
  exact .bind (unexpected_yields token) hrest

theorem importNamespace_yields : Yields importNamespace (IsA importKinds) := by
  unfold importNamespace
  refine .skip fun _ => .skip fun _ => .when fun _ => .skip fun _ => ?_
  exact .bind anyWord_yields fun name hname =>
    .pure (isA_node (by repeat constructor) (.cons hname.one .nil))

theorem importsAfterDefault_yields :
    Yields (importsAfterDefault rules) fun ts => ∀ t ∈ ts, IsA importKinds t := by
  unfold importsAfterDefault
  refine .skip fun _ => .ite (fun _ => .skip fun _ => .ite (fun _ => ?_) fun _ => ?_) fun _ => ?_
  · exact .bind importNamespace_yields fun t ht => .pure (List.forall_mem_singleton.2 ht)
  · refine .skip fun _ => .ite (fun _ => braceList_yields importSpecifier_yields) fun _ => ?_
    exact .skip fun token => unexpected_yields token
  · exact .pure nofun

theorem importSpecifiers_yields :
    Yields (importSpecifiers rules) fun ts => ∀ t ∈ ts, IsA importKinds t := by
  unfold importSpecifiers
  refine .skip fun token => .skip fun _ => ?_
  refine .ite (fun _ => braceList_yields importSpecifier_yields) fun _ => .skip fun _ => ?_
  refine .ite (fun _ => ?_) fun _ => .ite (fun _ => ?_) fun _ => ?_
  · exact .bind importNamespace_yields fun t ht => .pure (List.forall_mem_singleton.2 ht)
  · refine .bind anyWord_yields fun name hname => ?_
    have hfirst : IsA importKinds (.node "ImportDefaultSpecifier" [("local", name)]) :=
      isA_node (by repeat constructor) (.cons hname.one .nil)
    refine .bind importsAfterDefault_yields fun rest hrest => .pure ?_
    exact List.forall_mem_cons.2 ⟨hfirst, hrest⟩
  · exact .skip fun token => unexpected_yields token

theorem importDeclaration_yields : Yields (importDeclaration rules) (IsA keywordKinds) := by
  unfold importDeclaration
  refine .skip fun _ => .when fun _ => .skip fun _ => .skip fun token => ?_
  extract_lets rest
  have hrest : ∀ r, (∀ t ∈ r.1, IsA importKinds t) ∧ IsA ["Literal"] r.2 →
      Yields (rest r) (IsA keywordKinds) := fun r hr =>
    .skip fun _ => .pure
      (isA_node (by repeat constructor) (.cons (holds_many_iff.2 hr.1) (.cons hr.2.one .nil)))
  split
  · refine .bind moduleSpecifier_yields fun source hsource => ?_
    exact .bind (.pure ⟨nofun, hsource⟩) hrest
  · refine .bind importSpecifiers_yields fun specifiers hspecifiers => ?_
    refine .bind fromClause_yields fun source hsource => ?_
    exact .bind (.pure ⟨hspecifiers, hsource⟩) hrest

/-! ## Exports -/

/-- The kinds of what an export names. -/
def exportKinds : List String :=
  ["ExportSpecifier", "ExportDefaultSpecifier"]

theorem exportSpecifier_yields : Yields exportSpecifier (IsA exportKinds) := by
  unfold exportSpecifier
  refine .bind anyWord_yields fun localName hlocal => .skip fun _ => ?_
  extract_lets rest
  have hrest : ∀ exported, IsA ["Identifier"] exported → Yields (rest exported) (IsA exportKinds) :=
    fun exported hexported =>
      .pure (isA_node (by repeat constructor) (.cons hlocal.one (.cons hexported.one .nil)))
  refine .ite (fun _ => .skip fun _ => .bind anyWord_yields hrest) fun _ => ?_
  exact .bind (.pure hlocal) hrest

/-- The kinds of what a default export exports. -/
def defaultKinds : List String :=
  "FunctionDeclaration" :: "ClassDeclaration" :: expressionKinds

theorem exportDefault_yields (h : rules.Formed) :
    Yields (exportDefault rules) (IsA keywordKinds) := by
  unfold exportDefault
  refine .skip fun _ => .skip fun _ => ?_
  extract_lets rest ended values
  have hrest : ∀ declaration, IsA defaultKinds declaration →
      Yields (rest declaration) (IsA keywordKinds) := fun declaration hdeclaration =>
    .pure (isA_node (by repeat constructor) (.cons hdeclaration.one .nil))
  have hexpression : ∀ {t}, IsA expressionKinds t → IsA defaultKinds t :=
    fun ht => ht.mono fun _ hkind => List.mem_cons_of_mem _ (List.mem_cons_of_mem _ hkind)
  have hended : ∀ t, IsA expressionKinds t → Yields (ended t) (IsA keywordKinds) :=
    fun t ht => .skip fun _ => .bind (.pure (hexpression ht)) hrest
  have hvalues : ∀ u, Yields (values u) (IsA keywordKinds) := by
    refine fun _ => .skip fun _ => .skip fun _ => .ite (fun _ => ?_) fun _ => ?_
    · exact .bind (objectLiteral_yields h) hended
    · refine .ite (fun _ => .bind (arrayLiteral_yields h) hended) fun _ => ?_
      exact .bind h.assignment hended
  have hfunction : Yields (functionDeclaration rules true) (IsA defaultKinds) :=
    (functionDeclaration_yields h true).mono fun _ ht => ht.mono (by decide)
  refine .skip fun _ => .skip fun _ => .ite (fun _ => .bind hfunction hrest) fun _ => ?_
  refine .ite (fun _ => .bind ?_ hrest) fun _ => .ite (fun _ => .skip fun _ => ?_) fun _ => ?_
  · exact (classBy_yields h (.inl rfl) true).mono fun _ ht => ht.mono (by decide)
  · refine .ite (fun _ => .bind hfunction hrest) fun _ => ?_
    exact .bind (h.assignment.mono fun _ => hexpression) hrest
  · exact .skip fun _ => .when hvalues

theorem exportNode_isA {declaration : Tree} (hdeclaration : IsElement statementKinds declaration)
    {specifiers : List Tree} (hspecifiers : ∀ t ∈ specifiers, IsA exportKinds t) {source : Tree}
    (hsource : IsElement ["Literal"] source) :
    IsA keywordKinds (exportNode declaration specifiers source) :=
  isA_node (by repeat constructor) (.cons (holds_maybe_iff.2 hdeclaration)
    (.cons (holds_many_iff.2 hspecifiers) (.cons (holds_maybe_iff.2 hsource) .nil)))

theorem exportedDeclaration_yields (h : rules.Formed) :
    Yields (exportedDeclaration rules) (IsA keywordKinds) := by
  unfold exportedDeclaration
  refine .skip fun token => .ite (fun _ => ?_) fun _ => .ite (fun _ => ?_) fun _ => ?_
  · refine .bind (lexicalDeclaration_yields h) fun t ht => .pure ?_
    exact exportNode_isA (.inr (ht.mono (by decide))) (List.forall_mem_nil _) (.inl rfl)
  · refine .bind h.item fun t ht => .pure ?_
    exact exportNode_isA (.inr ht) (List.forall_mem_nil _) (.inl rfl)
  · exact unexpected_yields token

theorem exportList_yields :
    Yields (exportList rules) fun r => ∀ t ∈ r.1, IsA exportKinds t := by
  unfold exportList
  refine .bind (collect_yields (P := fun r => IsA exportKinds r.1) ?_ _) fun found hfound => .pure ?_
  · refine .skip fun _ => .ite (fun _ => .pure (ofSome_none _)) fun _ => .skip fun _ => ?_
    refine .bind exportSpecifier_yields fun t ht => .skip fun _ => .when fun _ => ?_
    exact .pure (ofSome_some ht)
  · intro t ht
    obtain ⟨r, hr, rfl⟩ := List.mem_map.1 ht
    exact hfound r hr

theorem exportNames_yields : Yields (exportNames rules) (IsA keywordKinds) := by
  unfold exportNames
  refine .skip fun token => ?_
  extract_lets withFirst
  have hwithFirst : ∀ r : List Tree × Bool, (∀ t ∈ r.1, IsA exportKinds t) →
      Yields (withFirst r) (IsA keywordKinds) := by
    rintro ⟨first, more⟩ hfirst
    dsimp -zeta only [withFirst]
    extract_lets rest
    have hrest : ∀ r, (∀ t ∈ r.1, IsA exportKinds t) → Yields (rest r) (IsA keywordKinds) := by
      intro r hr
      have hspecifiers := List.forall_mem_append.2 ⟨hfirst, hr⟩
      refine .skip fun _ => .ite (fun _ => .skip fun _ => ?_) fun _ => .ite (fun _ => ?_) fun _ => ?_
      · refine .bind moduleSpecifier_yields fun source hsource => .skip fun _ => .pure ?_
        exact exportNode_isA (.inl rfl) hspecifiers (.inr hsource)
      · exact complainNoFrom_yields
      · exact .skip fun _ => .pure (exportNode_isA (.inl rfl) hspecifiers (.inl rfl))
    refine .ite (fun _ => .skip fun _ => ?_) fun _ => .bind (.pure (List.forall_mem_nil _)) hrest
    refine .bind exportList_yields fun found hfound => .skip fun _ => ?_
    exact .bind (.pure hfound) hrest
  split
  · refine .bind anyWord_yields fun name hname => .skip fun more => ?_
    refine .bind (.pure (List.forall_mem_singleton.2 ?_)) hwithFirst
    exact isA_node (by repeat constructor) (.cons hname.one .nil)
  · exact .bind (.pure (List.forall_mem_nil _)) hwithFirst

theorem exportDeclaration_yields (h : rules.Formed) :
    Yields (exportDeclaration rules) (IsA keywordKinds) := by
  unfold exportDeclaration
  refine .skip fun _ => .when fun _ => .skip fun _ => .skip fun token => ?_
  refine .ite (fun _ => exportDefault_yields h) fun _ => .skip fun _ => .ite (fun _ => ?_) fun _ => ?_
  · refine .bind fromClause_yields fun source hsource => .skip fun _ => .pure ?_
    exact isA_node (by repeat constructor) (.cons hsource.one .nil)
  · split
    · exact exportedDeclaration_yields h
    · refine .skip fun _ => .ite (fun _ => ?_) fun _ => exportNames_yields
      refine .bind (functionDeclaration_isStatement h false) fun t ht => .pure ?_
      exact exportNode_isA (.inr ht) (List.forall_mem_nil _) (.inl rfl)

/-! ## Programs -/

theorem item_yields (h : rules.Formed) : Yields (item rules) (IsA statementKinds) := by
  unfold item
  have hkeyword : ∀ {p : Parse Tree}, Yields p (IsA keywordKinds) → Yields p (IsA statementKinds) :=
    fun hp => hp.mono fun _ ht => ht.mono (by decide)
  have hlexical : Yields (lexicalDeclaration rules) (IsA statementKinds) :=
    (lexicalDeclaration_yields h).mono fun _ ht => ht.mono (by decide)
  refine .skip fun _ => .skip fun token => ?_
  split
  · exact .skip fun _ => .when fun _ => hkeyword (exportDeclaration_yields h)
  · refine .skip fun _ => .ite (fun _ => expressionStatement_yields h) fun _ => .skip fun _ => ?_
    exact .when fun _ => hkeyword importDeclaration_yields
  · exact hlexical
  · exact functionDeclaration_isStatement h false
  · exact (classBy_yields h (.inl rfl) false).mono fun _ ht => ht.mono (by decide)
  · exact .skip fun _ => .ite (fun _ => hlexical) fun _ => h.statement
  · exact h.statement

/-- Whatever their budget, the rules yield formed trees. -/
theorem rules_formed (budget : Nat) : (Grammar.rules budget).Formed := by
  induction budget with
  | zero => exact ⟨complain_yields _, complain_yields _, complain_yields _, complain_yields _,
      complain_yields _, fun _ => complain_yields _, complain_yields _, complain_yields _⟩
  | succ budget ih =>
      exact
        { assignment := assignment_yields ih
          power := power_yields ih
          unary := unary_yields ih
          callee := callee_yields ih
          call := callExpression_yields ih
          pattern := pattern_yields ih
          statement := statement_yields ih
          item := item_yields ih }

theorem program_yields (h : rules.Formed) (goal : Goal) :
    Yields (program goal rules) fun t => t.isProgram = true := by
  unfold program
  refine .skip fun _ => .skip fun _ => .when fun _ => ?_
  refine .bind (directives_yields h) fun head hhead => ?_
  refine .bind (collect_yields (P := IsA statementKinds) ?_ _) fun body hbody => .pure ?_
  · refine .skip fun _ => .ite (fun _ => .pure (ofSome_none _)) fun _ => ?_
    exact .bind h.item fun t ht => .pure (ofSome_some ht)
  · have hnode : IsA ["Program"] (.node "Program"
        [("sourceType", .text goal.name), ("body", .list (head ++ body))]) :=
      isA_node (by repeat constructor) (.cons (holds_text _)
        (.cons (holds_many_iff.2 (List.forall_mem_append.2 ⟨hhead, hbody⟩)) .nil))
    exact Bool.and_eq_true_iff.2 ⟨rfl, hnode.2⟩

/-- A parsed text is a formed program. -/
theorem isProgram_of_parse {goal : Goal} {text : String} {t : Tree} (h : parse goal text = .ok t) :
    t.isProgram = true := by
  unfold parse parseChars at h
  split at h
  · rename_i tree state hrun
    rw [← Except.ok.inj h]
    exact program_yields (rules_formed _) goal _ _ _ hrun
  · cases h

end NameRecovery.Grammar
