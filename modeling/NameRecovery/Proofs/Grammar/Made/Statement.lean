import NameRecovery.Proofs.Grammar.Made.Expression
import NameRecovery.Proofs.Grammar.Statement

/-!
# Programs are made of texts

* `statement_makes`, `item_makes` — statements, declarations, imports and exports;
* `rules_built` — what the rules make is made of the texts of the lexicon, whatever their
  budget;
* `made_of_parse` — so is a parsed text, and the invariant holds at its end.
-/

namespace NameRecovery.Grammar

open Source

set_option linter.unusedSectionVars false

variable {L : Lexicon} {I : State → Prop} [Steady I] [Spoken L I] {rules : Rules}

/-! ## Declarations -/

theorem declaratorNode_made {id init : Tree} (hid : Made L id) (hinit : Made L init) :
    Made L (declaratorNode id init) := by
  simpa [declaratorNode, Lexicon.Fits] using ⟨hid, hinit⟩

theorem declarationNode_made {kind : String} (hkind : kind ∈ ["var", "let", "const"])
    {declarations : List Tree} (h : ∀ t ∈ declarations, Made L t) :
    Made L (declarationNode kind declarations) := by
  simpa [declarationNode] using ⟨⟨kind, rfl, hkind⟩, h⟩

theorem commaList_makes {one : Parse Tree} {P : Tree → Prop} (h : Makes I one P) :
    Makes I (commaList rules one) fun ts => ∀ t ∈ ts, P t := by
  unfold commaList
  refine .bind h fun first hfirst => .bind (collect_makes (P := P) ?_ _) fun rest hrest => ?_
  · refine .skip fun _ => .ite (fun _ => ?_) fun _ => .pure (ofSome_none _)
    exact .bind h fun t ht => .pure (ofSome_some ht)
  · exact .pure (List.forall_mem_cons.2 ⟨hfirst, hrest⟩)

instance (id : Tree) (complaint : Complaint) : Stays I (checkVariable id complaint) := by
  unfold checkVariable
  infer_instance

theorem variableDeclarator_makes (h : rules.Built L I) (inFor : Bool) :
    Makes I (variableDeclarator rules inFor) (Made L) := by
  unfold variableDeclarator
  refine .bind (h.pattern _) fun r hid => .skip fun _ => .skip fun _ => .ite (fun _ => ?_) fun _ => ?_
  · exact .bind h.assignment.isolated fun init hinit => .pure (declaratorNode_made hid hinit)
  · exact .when fun _ => .pure (declaratorNode_made hid made_null)

theorem lexicalDeclarator_makes (h : rules.Built L I) (kind : String) (inFor : Bool) :
    Makes I (lexicalDeclarator rules kind inFor) (Made L) := by
  unfold lexicalDeclarator
  refine .bind (h.pattern _) fun r hid => .skip fun _ => ?_
  have hplain := declaratorNode_made hid made_null
  have hwith : Makes I (do return declaratorNode r.1 (← isolated rules.assignment)) (Made L) :=
    .bind h.assignment.isolated fun init hinit => .pure (declaratorNode_made hid hinit)
  refine .ite (fun _ => .skip fun _ => .skip fun _ => .ite (fun _ => .pure hplain) fun _ => ?_) ?_
  · exact .skip fun _ => .ite (fun _ => hwith) fun _ => complain_makes _
  · refine fun _ => .skip fun _ => .ite (fun _ => .skip fun _ => hwith) fun _ => .pure hplain

/-- The words that start a declaration in a block. -/
def lexicalWords : List String :=
  ["let", "const"]

theorem lexicalDeclaration_makesAt (h : rules.Built L I) {s : State} (hs : I s)
    (hword : lexicalWords.any s.lookahead.isKeyword = true) :
    MakesAt I s (lexicalDeclaration rules) (Made L) := by
  unfold lexicalDeclaration
  refine .bind (nextToken_at hs) fun token htoken => ?_
  rw [htoken]
  refine .bind (commaList_makes (lexicalDeclarator_makes h _ false)) fun declarations hall => ?_
  refine .skip fun _ => .pure (declarationNode_made ?_ hall)
  exact List.mem_cons_of_mem _ (spelling_of_any_isKeyword hword)

theorem variableStatement_makes (h : rules.Built L I) :
    Makes I (variableStatement rules) (Made L) := by
  unfold variableStatement
  refine .skip fun _ => .bind (commaList_makes (variableDeclarator_makes h false)) ?_
  exact fun declarations hall => .skip fun _ => .pure (declarationNode_made (by decide) hall)

/-! ## Blocks and branches -/

theorem blockStatement_makes (h : rules.Built L I) : Makes I (blockStatement rules) (Made L) := by
  unfold blockStatement
  refine .skip fun _ => .bind (collect_makes (P := Made L) ?_ _) fun body hbody => ?_
  · refine .skip fun _ => .ite (fun _ => .pure (ofSome_none _)) fun _ => ?_
    exact .bind h.item fun t ht => .pure (ofSome_some ht)
  · exact .skip fun _ => .pure (block_made hbody)

theorem expressionStatement_makes (h : rules.Built L I) :
    Makes I (expressionStatement rules) (Made L) := by
  unfold expressionStatement
  refine .bind (expression_makes h) fun expr hexpr => .skip fun _ => ?_
  exact .pure (expressionStatement_made hexpr)

theorem ifBranch_makes (h : rules.Built L I) : Makes I (ifBranch rules) (Made L) := by
  unfold ifBranch
  exact .skip fun _ => .skip fun _ => .when fun _ => h.statement

theorem headExpression_makes (h : rules.Built L I) (keyword : String) :
    Makes I (headExpression rules keyword) (Made L) := by
  unfold headExpression
  refine .skip fun _ => .skip fun _ => .bind (expression_makes h) fun expr hexpr => ?_
  exact .skip fun _ => .pure hexpr

theorem ifStatement_makes (h : rules.Built L I) : Makes I (ifStatement rules) (Made L) := by
  unfold ifStatement
  refine .bind (headExpression_makes h _) fun test htest => ?_
  refine .bind (ifBranch_makes h) fun consequent hconsequent => .skip fun _ => ?_
  extract_lets rest
  have hrest : ∀ alternate, Made L alternate → Makes I (rest alternate) (Made L) := by
    intro alternate halternate
    refine .pure ?_
    simpa [Lexicon.Fits] using ⟨htest, hconsequent, halternate⟩
  refine .ite (fun _ => .skip fun _ => ?_) fun _ => .bind (.pure made_null) hrest
  exact .bind (ifBranch_makes h) hrest

theorem Makes.loopBody {body : Parse Tree} {P : Tree → Prop} (h : Makes I body P) :
    Makes I (loopBody body) P := by
  unfold Grammar.loopBody
  exact .skip fun _ => .skip fun _ => .bind h fun t ht => .skip fun _ => .pure ht

theorem doWhileStatement_makes (h : rules.Built L I) :
    Makes I (doWhileStatement rules) (Made L) := by
  unfold doWhileStatement
  refine .skip fun _ => .bind h.statement.loopBody fun body hbody => ?_
  refine .bind (headExpression_makes h _) fun test htest => .skip fun _ => .pure ?_
  simpa [Lexicon.Fits] using ⟨hbody, htest⟩

theorem whileStatement_makes (h : rules.Built L I) : Makes I (whileStatement rules) (Made L) := by
  unfold whileStatement
  refine .bind (headExpression_makes h _) fun test htest => ?_
  refine .bind h.statement.loopBody fun body hbody => .pure ?_
  simpa [Lexicon.Fits] using ⟨htest, hbody⟩

/-! ## Loops with `for` -/

/-- Are the parts of the head of a loop made of such texts? -/
def ForHead.Made (L : Lexicon) : ForHead → Prop
  | .forIn left right | .forOf left right => Grammar.Made L left ∧ Grammar.Made L right
  | .counted init => Grammar.Made L init

theorem forIn_head_makes (h : rules.Built L I) {left : Tree} (hleft : Made L left) :
    Makes I (forIn rules left) (ForHead.Made L) := by
  unfold Grammar.forIn
  exact .skip fun _ => .bind (expression_makes h) fun right hright => .pure ⟨hleft, hright⟩

theorem forOf_head_makes (h : rules.Built L I) {left : Tree} (hleft : Made L left) :
    Makes I (forOf rules left) (ForHead.Made L) := by
  unfold forOf
  exact .skip fun _ => .bind h.assignment fun right hright => .pure ⟨hleft, hright⟩

theorem Makes.withoutIn {α : Type} {p : Parse α} {P : α → Prop} (h : Makes I p P) :
    Makes I (withoutIn p) P := by
  unfold Grammar.withoutIn
  exact .skip fun _ => .skip fun _ => .bind h fun t ht => .skip fun _ => .pure ht

theorem forVar_makes (h : rules.Built L I) : Makes I (forVar rules) (ForHead.Made L) := by
  unfold forVar
  refine .skip fun _ => .bind (commaList_makes (variableDeclarator_makes h true)).withoutIn ?_
  intro declarations hdeclarations
  have hinit : Made L (declarationNode "var" declarations) :=
    declarationNode_made (by decide) hdeclarations
  dsimp only
  split
  · refine .skip fun _ => .ite (fun _ => .skip fun _ => ?_) fun _ => .skip fun _ => ?_
    · exact .when fun _ => forIn_head_makes h hinit
    · exact .ite (fun _ => forOf_head_makes h hinit) fun _ => .skip fun _ => .pure hinit
  · exact .skip fun _ => .pure hinit

theorem forLexical_makesAt (h : rules.Built L I) {s : State} (hs : I s)
    (hword : lexicalWords.any s.lookahead.isKeyword = true) :
    MakesAt I s (forLexical rules) (ForHead.Made L) := by
  have hspelling := spelling_of_any_isKeyword hword
  have hname : L.name s.lookahead.spelling := by
    obtain ⟨text, hmem, hkeyword⟩ := List.any_eq_true.1 hword
    have hlexeme : s.lookahead.lexeme = .keyword text := by simpa [Token.isKeyword] using hkeyword
    have hlook : L.Covers s.lookahead := Spoken.look hs
    simpa [Lexicon.Covers, Token.spelling, hlexeme] using hlook
  unfold forLexical
  refine .bind (nextToken_at hs) fun token htoken => ?_
  rw [htoken]
  refine .skip fun _ => .skip fun _ => .ite (fun _ => ?_) fun _ => ?_
  · exact forIn_head_makes h (identifier_named hname).1
  refine .bind (commaList_makes (lexicalDeclarator_makes h _ true)).withoutIn ?_
  intro declarations hdeclarations
  have hinit := declarationNode_made (List.mem_cons_of_mem _ hspelling) hdeclarations
  dsimp only
  split
  · refine .skip fun _ => .ite (fun _ => forIn_head_makes h hinit) fun _ => .skip fun _ => ?_
    exact .ite (fun _ => forOf_head_makes h hinit) fun _ => .skip fun _ => .pure hinit
  · exact .skip fun _ => .pure hinit

instance (expr : Tree) (complaint : Complaint) : Stays I (checkLoopTarget expr complaint) := by
  unfold checkLoopTarget
  infer_instance

theorem forExpression_makes (h : rules.Built L I) :
    Makes I (forExpression rules) (ForHead.Made L) := by
  unfold forExpression
  refine .bind h.assignment.inherited.withoutIn fun init hinit => .skip fun _ => ?_
  refine .ite (fun _ => .skip fun _ => forIn_head_makes h hinit.asPattern) fun _ => .skip fun _ => ?_
  refine .ite (fun _ => .skip fun _ => forOf_head_makes h hinit.asPattern) fun _ => .skip fun _ => ?_
  extract_lets rest
  have hrest : ∀ init, Made L init → Makes I (rest init) (ForHead.Made L) :=
    fun init hinit => .skip fun _ => .pure hinit
  refine .ite (fun _ => ?_) fun _ => .bind (.pure hinit) hrest
  refine .bind (commaTail_makes h) fun more hmore => ?_
  exact .bind (.pure (sequence_made hinit hmore)) hrest

theorem forHead_makes (h : rules.Built L I) : Makes I (forHead rules) (ForHead.Made L) := by
  unfold forHead
  refine .skip fun _ => .ite (fun _ => .pure ?_) fun _ => .skip fun _ => ?_
  · exact (made_null : Made L .null)
  refine .ite (fun _ => forVar_makes h) fun _ => makes_iff.2 fun s hs => ?_
  refine .read rfl (.read rfl (.ite (fun hword => forLexical_makesAt h hs ?_) fun _ => ?_))
  · simpa [lexicalWords, or_comm] using hword
  · exact (forExpression_makes h).at hs

theorem forStatement_makes (h : rules.Built L I) : Makes I (forStatement rules) (Made L) := by
  unfold forStatement
  refine .skip fun _ => .skip fun _ => .bind (forHead_makes h) fun head hhead => ?_
  extract_lets body
  have hbody : Makes I body (Made L) := .skip fun _ => h.statement.isolated.loopBody
  cases head with
  | forIn left right =>
      refine .bind hbody fun body hbody => .pure ?_
      simpa [Lexicon.Fits] using ⟨hhead.1, hhead.2, hbody⟩
  | forOf left right =>
      refine .bind hbody fun body hbody => .pure ?_
      simpa [Lexicon.Fits] using ⟨hhead.1, hhead.2, hbody⟩
  | counted init =>
      have hpart := expression_makes h
      have hinit : Made L init := hhead
      refine .skip fun _ => .branch (Made L) (fun _ => .pure made_null) (fun _ => hpart) ?_
      intro test htest
      refine .skip fun _ => .skip fun _ => ?_
      refine .branch (Made L) (fun _ => .pure made_null) (fun _ => hpart) ?_
      intro update hupdate
      refine .bind hbody fun body hbody => .pure ?_
      simpa [Lexicon.Fits] using ⟨hinit, htest, hupdate, hbody⟩

/-! ## Jumps -/

theorem jumpLabel_makes : Makes I jumpLabel (OfSome (Made L)) := by
  unfold jumpLabel
  refine .skip fun token => ?_
  split
  · refine .skip fun _ => .ite (fun _ => .pure (ofSome_none _)) fun _ => ?_
    refine .bind (variableName_makes none) fun label hlabel => .skip fun _ => .when fun _ => ?_
    exact .pure (ofSome_some hlabel.1)
  · exact .pure (ofSome_none _)

theorem jump_made {kind : String} (hkind : kind = "BreakStatement" ∨ kind = "ContinueStatement")
    {label : Option Tree} (h : OfSome (Made L) label) :
    Made L (.node kind [("label", optional label)]) := by
  have hlabel := optional_made h
  rcases hkind with rfl | rfl <;> simpa [Lexicon.Fits] using hlabel

theorem continueStatement_makes : Makes I continueStatement (Made L) := by
  unfold continueStatement
  refine .skip fun _ => .bind jumpLabel_makes fun label hlabel => .skip fun _ => .skip fun _ => ?_
  exact .when fun _ => .pure (jump_made (.inr rfl) hlabel)

theorem breakStatement_makes : Makes I breakStatement (Made L) := by
  unfold breakStatement
  refine .skip fun _ => .bind jumpLabel_makes fun label hlabel => .skip fun _ => .skip fun _ => ?_
  exact .when fun _ => .pure (jump_made (.inl rfl) hlabel)

theorem returnStatement_makes (h : rules.Built L I) : Makes I (returnStatement rules) (Made L) := by
  unfold returnStatement
  refine .skip fun _ => .when fun _ => .skip fun _ => .skip fun token => .skip fun _ => ?_
  refine .branch (Made L) (fun _ => expression_makes h) (fun _ => .pure made_null) ?_
  intro argument hargument
  refine .skip fun _ => .pure ?_
  simpa [Lexicon.Fits] using hargument

theorem throwStatement_makes (h : rules.Built L I) : Makes I (throwStatement rules) (Made L) := by
  unfold throwStatement
  refine .skip fun _ => .skip fun _ => .when fun _ => ?_
  refine .bind (expression_makes h) fun argument hargument => .skip fun _ => .pure ?_
  simpa [Lexicon.Fits] using hargument

/-! ## Other statements -/

theorem withStatement_makes (h : rules.Built L I) : Makes I (withStatement rules) (Made L) := by
  unfold withStatement
  refine .skip fun _ => .when fun _ => .bind (headExpression_makes h _) fun object hobject => ?_
  refine .bind h.statement fun body hbody => .pure ?_
  simpa [Lexicon.Fits] using ⟨hobject, hbody⟩

theorem switchCase_makes (h : rules.Built L I) : Makes I (switchCase rules) (Made L) := by
  unfold switchCase
  refine .skip fun _ => ?_
  extract_lets rest
  have hrest : ∀ test, Made L test → Makes I (rest test) (Made L) := by
    intro test htest
    refine .skip fun _ => .bind (collect_makes (P := Made L) ?_ _) ?_
    · refine .skip fun _ => .skip fun _ => .skip fun _ => .ite (fun _ => ?_) fun _ => ?_
      · exact .pure (ofSome_none _)
      · exact .bind h.item fun t ht => .pure (ofSome_some ht)
    · intro consequent hconsequent
      refine .pure ?_
      simpa [Lexicon.Fits] using ⟨htest, hconsequent⟩
  refine .ite (fun _ => .skip fun _ => .bind (.pure made_null) hrest) fun _ => .skip fun _ => ?_
  exact .bind (expression_makes h) hrest

theorem switchCases_makes (h : rules.Built L I) (budget : Nat) (hasDefault : Bool) :
    Makes I (switchCases rules budget hasDefault) fun ts => ∀ t ∈ ts, Made L t := by
  induction budget generalizing hasDefault with
  | zero => exact complain_makes _
  | succ budget ih =>
      unfold switchCases
      refine .skip fun _ => .ite (fun _ => .pure (List.forall_mem_nil _)) fun _ => ?_
      refine .bind (switchCase_makes h) fun clause hclause => .when fun _ => ?_
      exact .bind (ih _) fun rest hrest => .pure (List.forall_mem_cons.2 ⟨hclause, hrest⟩)

theorem switchStatement_makes (h : rules.Built L I) : Makes I (switchStatement rules) (Made L) := by
  unfold switchStatement
  refine .bind (headExpression_makes h _) fun discriminant hdiscriminant => .skip fun _ => ?_
  refine .skip fun _ => .skip fun _ => .bind (switchCases_makes h _ false) fun cases hcases => ?_
  refine .skip fun _ => .skip fun _ => .pure ?_
  simpa [Lexicon.Fits] using ⟨hdiscriminant, hcases⟩

instance (seen names : List String) : Stays I (checkDistinct seen names) := by
  induction names generalizing seen with
  | nil => unfold checkDistinct; infer_instance
  | cons name rest ih => unfold checkDistinct; infer_instance

theorem catchClause_makes (h : rules.Built L I) : Makes I (catchClause rules) (Made L) := by
  unfold catchClause
  refine .skip fun _ => .skip fun _ => .skip fun _ => .whenWith fun _ => ?_
  refine .bind (h.pattern none) fun r hparam => .skip fun _ => .skip fun _ => .skip fun _ => ?_
  refine .bind (blockStatement_makes h) fun body hbody => .pure ?_
  simpa [Lexicon.Fits] using ⟨hparam, hbody⟩

theorem tryStatement_makes (h : rules.Built L I) : Makes I (tryStatement rules) (Made L) := by
  unfold tryStatement
  refine .skip fun _ => .bind (blockStatement_makes h) fun body hbody => .skip fun _ => ?_
  refine .branch (Made L) (fun _ => catchClause_makes h) (fun _ => .pure made_null) ?_
  intro handler hhandler
  refine .skip fun _ => ?_
  extract_lets rest
  have hrest : ∀ finalizer, Made L finalizer → Makes I (rest finalizer) (Made L) := by
    intro finalizer hfinalizer
    refine .when fun _ => .pure ?_
    simpa [Lexicon.Fits] using ⟨hbody, hhandler, hfinalizer⟩
  refine .ite (fun _ => .skip fun _ => ?_) fun _ => .bind (.pure made_null) hrest
  exact .bind (blockStatement_makes h) hrest

theorem labelledBody_makes (h : rules.Built L I) : Makes I (labelledBody rules) (Made L) := by
  unfold labelledBody
  refine .skip fun token => .ite (fun _ => unexpected_makes token) fun _ => .ite (fun _ => ?_) ?_
  · refine .bind (functionDeclaration_makes h false) fun declaration hdeclaration => ?_
    exact .skip fun _ => .when fun _ => .when fun _ => .pure hdeclaration
  · exact fun _ => h.statement

theorem labelledStatement_makes (h : rules.Built L I) :
    Makes I (labelledStatement rules) (Made L) := by
  unfold labelledStatement
  refine .bind (expression_makes h) fun expr hexpr => .skip fun _ => ?_
  split
  · refine .skip fun _ => .skip fun _ => .when fun _ => .skip fun _ => ?_
    refine .bind (labelledBody_makes h) fun body hbody => .skip fun _ => .pure ?_
    simpa [Lexicon.Fits] using ⟨hexpr, hbody⟩
  · exact .skip fun _ => .pure (expressionStatement_made hexpr)

theorem keywordStatement_makes (h : rules.Built L I) (text : String) :
    Makes I (keywordStatement rules text) (Made L) := by
  unfold keywordStatement
  split
  · exact breakStatement_makes
  · exact continueStatement_makes
  · exact .skip fun _ => .skip fun _ => .pure (bare_made (by decide))
  · exact doWhileStatement_makes h
  · exact forStatement_makes h
  · exact functionDeclaration_makes h false
  · exact ifStatement_makes h
  · exact returnStatement_makes h
  · exact switchStatement_makes h
  · exact throwStatement_makes h
  · exact tryStatement_makes h
  · exact variableStatement_makes h
  · exact whileStatement_makes h
  · exact withStatement_makes h
  · exact expressionStatement_makes h

theorem statement_makes (h : rules.Built L I) : Makes I (statement rules) (Made L) := by
  unfold statement
  refine .skip fun token => ?_
  split
  · exact blockStatement_makes h
  · exact .skip fun _ => .pure (bare_made (by decide))
  · refine .skip fun _ => .ite (fun _ => functionDeclaration_makes h false) fun _ => ?_
    exact labelledStatement_makes h
  · exact keywordStatement_makes h _
  · exact unexpected_makes token
  · exact expressionStatement_makes h

/-! ## Imports -/

theorem moduleSpecifier_makes : Makes I moduleSpecifier (Made L) := by
  unfold moduleSpecifier
  refine makes_seeing fun s hs => ?_
  have htoken : L.Covers s.lookahead := Spoken.look hs
  split
  · rename_i value octal hlexeme
    refine .bind (nextToken_at hs) fun token hsame => .pure (literal_made ?_)
    rw [hsame]
    simpa [Lexicon.Covers, hlexeme] using htoken
  · exact (complain_makes _).at hs

theorem complainNoFrom_makes {α : Type} {Q : α → Prop} : Makes I complainNoFrom Q :=
  .skip fun _ => complain_makes _

theorem fromClause_makes : Makes I fromClause (Made L) := by
  unfold fromClause
  refine .skip fun _ => .ite (fun _ => .skip fun _ => moduleSpecifier_makes) fun _ => ?_
  exact complainNoFrom_makes

theorem braceList_makes {one : Parse Tree} {P : Tree → Prop} (h : Makes I one P) :
    Makes I (braceList rules one) fun ts => ∀ t ∈ ts, P t := by
  unfold braceList
  refine .skip fun _ => .bind (collect_makes (P := P) ?_ _) fun items hitems => ?_
  · refine .skip fun _ => .ite (fun _ => .pure (ofSome_none _)) fun _ => ?_
    exact .bind h fun item hitem => .skip fun _ => .when fun _ => .pure (ofSome_some hitem)
  · exact .skip fun _ => .pure hitems

theorem importSpecifier_makes : Makes I importSpecifier (Made L) := by
  unfold importSpecifier
  refine .skip fun token => .branch (Named L) (fun _ => variableName_makes none)
    (fun _ => anyWord_makes) fun imported himported => .skip fun _ => ?_
  extract_lets rest
  have hrest : ∀ localName, Named L localName → Makes I (rest localName) (Made L) := by
    intro localName hlocal
    refine .pure ?_
    simpa [Lexicon.Fits] using ⟨himported.1, hlocal.1⟩
  refine .ite (fun _ => .skip fun _ => .bind (variableName_makes none) hrest) fun _ => ?_
  refine .ite (fun _ => .bind (.pure himported) hrest) fun _ => .skip fun token => ?_
  exact .bind (unexpected_makes token) hrest

/-- A name alone in a node. -/
theorem local_made {kind : String} (hkind : kind ∈ ["ImportNamespaceSpecifier",
    "ImportDefaultSpecifier", "ExportDefaultSpecifier"]) {name : Tree} (h : Named L name) :
    Made L (.node kind [("local", name)]) := by
  simp only [List.mem_cons, List.not_mem_nil, or_false] at hkind
  rcases hkind with rfl | rfl | rfl <;> simpa [Lexicon.Fits] using h.1

theorem importNamespace_makes : Makes I importNamespace (Made L) := by
  unfold importNamespace
  refine .skip fun _ => .skip fun _ => .when fun _ => .skip fun _ => ?_
  exact .bind anyWord_makes fun name hname => .pure (local_made (by decide) hname)

theorem importsAfterDefault_makes :
    Makes I (importsAfterDefault rules) fun ts => ∀ t ∈ ts, Made L t := by
  unfold importsAfterDefault
  refine .skip fun _ => .ite (fun _ => .skip fun _ => .ite (fun _ => ?_) fun _ => ?_) fun _ => ?_
  · exact .bind importNamespace_makes fun t ht => .pure (List.forall_mem_singleton.2 ht)
  · refine .skip fun _ => .ite (fun _ => braceList_makes importSpecifier_makes) fun _ => ?_
    exact .skip fun token => unexpected_makes token
  · exact .pure nofun

theorem importSpecifiers_makes :
    Makes I (importSpecifiers rules) fun ts => ∀ t ∈ ts, Made L t := by
  unfold importSpecifiers
  refine .skip fun token => .skip fun _ => ?_
  refine .ite (fun _ => braceList_makes importSpecifier_makes) fun _ => .skip fun _ => ?_
  refine .ite (fun _ => ?_) fun _ => .ite (fun _ => ?_) fun _ => ?_
  · exact .bind importNamespace_makes fun t ht => .pure (List.forall_mem_singleton.2 ht)
  · refine .bind anyWord_makes fun name hname => ?_
    refine .bind importsAfterDefault_makes fun rest hrest => .pure ?_
    exact List.forall_mem_cons.2 ⟨local_made (by decide) hname, hrest⟩
  · exact .skip fun token => unexpected_makes token

theorem importDeclaration_makes : Makes I (importDeclaration rules) (Made L) := by
  unfold importDeclaration
  refine .skip fun _ => .when fun _ => .skip fun _ => .skip fun token => ?_
  extract_lets rest
  have hrest : ∀ r : List Tree × Tree, (∀ t ∈ r.1, Made L t) ∧ Made L r.2 →
      Makes I (rest r) (Made L) := by
    intro r hr
    refine .skip fun _ => .pure ?_
    simpa [Lexicon.Fits] using hr
  split
  · refine .bind moduleSpecifier_makes fun source hsource => ?_
    exact .bind (.pure ⟨List.forall_mem_nil _, hsource⟩) hrest
  · refine .bind importSpecifiers_makes fun specifiers hspecifiers => ?_
    refine .bind fromClause_makes fun source hsource => ?_
    exact .bind (.pure ⟨hspecifiers, hsource⟩) hrest

/-! ## Exports -/

theorem exportSpecifier_makes : Makes I exportSpecifier (Made L) := by
  unfold exportSpecifier
  refine .bind anyWord_makes fun localName hlocal => .skip fun _ => ?_
  extract_lets rest
  have hrest : ∀ exported, Named L exported → Makes I (rest exported) (Made L) := by
    intro exported hexported
    refine .pure ?_
    simpa [Lexicon.Fits] using ⟨hlocal.1, hexported.1⟩
  refine .ite (fun _ => .skip fun _ => .bind anyWord_makes hrest) fun _ => ?_
  exact .bind (.pure hlocal) hrest

theorem exportDefault_makes (h : rules.Built L I) : Makes I (exportDefault rules) (Made L) := by
  unfold exportDefault
  refine .skip fun _ => .skip fun _ => ?_
  extract_lets rest ended values
  have hrest : ∀ declaration, Made L declaration → Makes I (rest declaration) (Made L) := by
    intro declaration hdeclaration
    refine .pure ?_
    simpa [Lexicon.Fits] using hdeclaration
  have hended : ∀ t, Made L t → Makes I (ended t) (Made L) :=
    fun t ht => .skip fun _ => .bind (.pure ht) hrest
  have hvalues : ∀ u, Makes I (values u) (Made L) := by
    refine fun _ => .skip fun _ => .skip fun _ => .ite (fun _ => ?_) fun _ => ?_
    · exact .bind (objectLiteral_makes h) hended
    · refine .ite (fun _ => .bind (arrayLiteral_makes h) hended) fun _ => ?_
      exact .bind h.assignment hended
  have hfunction := functionDeclaration_makes h true
  refine .skip fun _ => .skip fun _ => .ite (fun _ => .bind hfunction hrest) fun _ => ?_
  refine .ite (fun _ => .bind ?_ hrest) fun _ => .ite (fun _ => .skip fun _ => ?_) fun _ => ?_
  · exact classBy_makes h (.inl rfl) true
  · refine .ite (fun _ => .bind hfunction hrest) fun _ => ?_
    exact .bind h.assignment hrest
  · exact .skip fun _ => .when hvalues

theorem exportNode_made {declaration : Tree} (hdeclaration : Made L declaration)
    {specifiers : List Tree} (hspecifiers : ∀ t ∈ specifiers, Made L t) {source : Tree}
    (hsource : Made L source) (hone : declaration = .null ∨ specifiers = []) :
    Made L (exportNode declaration specifiers source) := by
  have hfits : L.Fits "ExportNamedDeclaration" [("declaration", declaration),
      ("specifiers", .list specifiers), ("source", source)] := by
    rcases hone with rfl | rfl
    · exact .inl rfl
    · exact .inr rfl
  simpa [exportNode] using ⟨hfits, hdeclaration, hspecifiers, hsource⟩

theorem exportedNode_made {declaration : Tree} (h : Made L declaration) :
    Made L (exportNode declaration [] .null) :=
  exportNode_made h (List.forall_mem_nil _) made_null (.inr rfl)

theorem exportedDeclaration_makes (h : rules.Built L I) :
    Makes I (exportedDeclaration rules) (Made L) := by
  unfold exportedDeclaration
  refine makes_seeing fun s hs => .ite (fun hword => ?_) fun _ => Makes.at ?_ hs
  · refine .bind (lexicalDeclaration_makesAt h hs hword) fun t ht => .pure ?_
    exact exportedNode_made ht
  · refine .ite (fun _ => .bind h.item fun t ht => .pure (exportedNode_made ht)) fun _ => ?_
    exact unexpected_makes _

theorem exportList_makes :
    Makes I (exportList rules) fun r => ∀ t ∈ r.1, Made L t := by
  unfold exportList
  refine .bind (collect_makes (P := fun r => Made L r.1) ?_ _) fun found hfound => .pure ?_
  · refine .skip fun _ => .ite (fun _ => .pure (ofSome_none _)) fun _ => .skip fun _ => ?_
    refine .bind exportSpecifier_makes fun t ht => .skip fun _ => .when fun _ => ?_
    exact .pure (ofSome_some ht)
  · intro t ht
    obtain ⟨r, hr, rfl⟩ := List.mem_map.1 ht
    exact hfound r hr

theorem exportNames_makes : Makes I (exportNames rules) (Made L) := by
  unfold exportNames
  refine .skip fun token => ?_
  extract_lets withFirst
  have hwithFirst : ∀ r : List Tree × Bool, (∀ t ∈ r.1, Made L t) →
      Makes I (withFirst r) (Made L) := by
    rintro ⟨first, more⟩ hfirst
    dsimp -zeta only [withFirst]
    extract_lets rest
    have hrest : ∀ r, (∀ t ∈ r.1, Made L t) → Makes I (rest r) (Made L) := by
      intro r hr
      have hspecifiers := List.forall_mem_append.2 ⟨hfirst, hr⟩
      refine .skip fun _ => .ite (fun _ => .skip fun _ => ?_) fun _ => .ite (fun _ => ?_) fun _ => ?_
      · refine .bind moduleSpecifier_makes fun source hsource => .skip fun _ => .pure ?_
        exact exportNode_made made_null hspecifiers hsource (.inl rfl)
      · exact complainNoFrom_makes
      · exact .skip fun _ => .pure (exportNode_made made_null hspecifiers made_null (.inl rfl))
    refine .ite (fun _ => .skip fun _ => ?_) fun _ => .bind (.pure (List.forall_mem_nil _)) hrest
    refine .bind exportList_makes fun found hfound => .skip fun _ => ?_
    exact .bind (.pure hfound) hrest
  split
  · refine .bind anyWord_makes fun name hname => .skip fun more => ?_
    exact .bind (.pure (List.forall_mem_singleton.2 (local_made (by decide) hname))) hwithFirst
  · exact .bind (.pure (List.forall_mem_nil _)) hwithFirst

theorem exportDeclaration_makes (h : rules.Built L I) :
    Makes I (exportDeclaration rules) (Made L) := by
  unfold exportDeclaration
  refine .skip fun _ => .when fun _ => .skip fun _ => .skip fun token => ?_
  refine .ite (fun _ => exportDefault_makes h) fun _ => .skip fun _ => .ite (fun _ => ?_) fun _ => ?_
  · refine .bind fromClause_makes fun source hsource => .skip fun _ => .pure ?_
    simpa [Lexicon.Fits] using hsource
  · split
    · exact exportedDeclaration_makes h
    · refine .skip fun _ => .ite (fun _ => ?_) fun _ => exportNames_makes
      refine .bind (functionDeclaration_makes h false) fun t ht => .pure ?_
      exact exportedNode_made ht

/-! ## Programs -/

theorem letStartsDeclaration_lookahead {s s' : State} {b : Bool}
    (h : letStartsDeclaration s = .ok (b, s')) : s'.lookahead = s.lookahead := by
  obtain ⟨next, s₁, hnext, h⟩ := run_bind h
  have hsame : s' = s₁ := by
    cases hlexeme : next.lexeme <;> rw [hlexeme] at h <;>
      exact (Prod.mk.inj (Except.ok.inj h)).2.symm
  obtain ⟨_, _, _, -, -, rfl⟩ := tokenAfter_cases hnext
  rw [hsame]

instance : Stays I letStartsDeclaration := by
  refine ⟨.skip fun next => ?_⟩
  split <;> exact .pure trivial

/-- Whether `let` starts a declaration is seen without consuming it. -/
theorem letStartsDeclaration_at {s : State} (hs : I s) {f : Bool → Parse Tree} {Q : Tree → Prop}
    (hf : ∀ b s₁, I s₁ → s₁.lookahead = s.lookahead → MakesAt I s₁ (f b) Q) :
    MakesAt I s (letStartsDeclaration >>= f) Q := by
  intro t s' hrun
  obtain ⟨b, s₁, hfirst, hrest⟩ := run_bind hrun
  have hs₁ : I s₁ := (Stays.makes s b s₁ hs hfirst).1
  have hlook : s₁.lookahead = s.lookahead := letStartsDeclaration_lookahead hfirst
  exact hf b s₁ hs₁ hlook t s' hrest

theorem item_makes (h : rules.Built L I) : Makes I (item rules) (Made L) := by
  unfold item
  refine .skip fun _ => makes_seeing fun s hs => ?_
  split
  · exact Makes.at (.skip fun _ => .when fun _ => exportDeclaration_makes h) hs
  · refine Makes.at (.skip fun _ => .ite (fun _ => expressionStatement_makes h) fun _ => ?_) hs
    exact .skip fun _ => .when fun _ => importDeclaration_makes
  · rename_i hlexeme
    exact lexicalDeclaration_makesAt h hs (by simp [lexicalWords, Token.isKeyword, hlexeme])
  · exact (functionDeclaration_makes h false).at hs
  · exact (classBy_makes h (.inl rfl) false).at hs
  · rename_i hlexeme
    refine letStartsDeclaration_at hs fun b s₁ hs₁ hsame => ?_
    refine .ite (fun _ => lexicalDeclaration_makesAt h hs₁ ?_) fun _ => h.statement.at hs₁
    simp [lexicalWords, Token.isKeyword, hsame, hlexeme]
  · exact h.statement.at hs

/-- Whatever their budget, the rules make trees of the texts of the lexicon. -/
theorem rules_built (budget : Nat) : (Grammar.rules budget).Built L I := by
  induction budget with
  | zero => exact ⟨complain_makes _, complain_makes _, complain_makes _, complain_makes _,
      complain_makes _, fun _ => complain_makes _, complain_makes _, complain_makes _⟩
  | succ budget ih =>
      exact
        { assignment := assignment_makes ih
          power := power_makes ih
          unary := unary_makes ih
          callee := callee_makes ih
          call := callExpression_makes ih
          pattern := pattern_makes ih
          statement := statement_makes ih
          item := item_makes ih }

/-- The statements of a program end where the text does. -/
theorem isEnd_of_item {s s' : State}
    (h : (do if ← seesEnd then return none else return some (← rules.item) : Parse (Option Tree)) s =
      .ok (none, s')) : s'.lookahead.isEnd = true := by
  obtain ⟨ended, s₁, hended, h⟩ := run_bind h
  obtain ⟨rfl, rfl⟩ := Prod.mk.inj (Except.ok.inj hended)
  split at h
  · cases h
    assumption
  · obtain ⟨t, s₂, -, h⟩ := run_bind h
    cases h

/-- Behind its first token, a program is made of the texts of the lexicon up to its end. -/
theorem program_makes (h : rules.Built L I) {goal : Goal} {s s' : State} {t : Tree}
    (hfirst : ∀ token s₁, nextToken s = .ok (token, s₁) → I s₁)
    (hrun : program goal rules s = .ok (t, s')) :
    Made L t ∧ I s' ∧ s'.lookahead.isEnd = true := by
  have hstep : Makes I (do
      if ← seesEnd then return none else return some (← rules.item)) (OfSome (Made L)) := by
    refine .skip fun _ => .ite (fun _ => .pure (ofSome_none _)) fun _ => ?_
    exact .bind h.item fun t ht => .pure (ofSome_some ht)
  unfold program at hrun
  obtain ⟨token, s₁, hnext, hrun⟩ := run_bind hrun
  obtain ⟨_, s₂, hs₂, hrun⟩ := run_skip (hfirst token s₁ hnext) hrun
  obtain ⟨s₃, hs₃, hrun⟩ := run_when hs₂ hrun
  obtain ⟨head, s₄, hdirectives, hrun⟩ := run_bind hrun
  obtain ⟨hs₄, hhead⟩ := directives_makes h s₃ head s₄ hs₃ hdirectives
  obtain ⟨body, s₅, hcollect, hrun⟩ := run_bind hrun
  obtain ⟨hs₅, hbody⟩ := collect_makes hstep _ s₄ body s₅ hs₄ hcollect
  obtain ⟨rfl, rfl⟩ := Prod.mk.inj (Except.ok.inj hrun)
  refine ⟨?_, hs₅, ?_⟩
  · simpa [Lexicon.Fits] using List.forall_mem_append.2 ⟨hhead, hbody⟩
  · obtain ⟨s₆, hlast⟩ := collect_last hcollect
    exact isEnd_of_item hlast

/-- The tree of a text is made of its texts, if the invariant holds once the first token has
been read; it still holds where the text ends. -/
theorem made_of_parse {goal : Goal} {text : String} {t : Tree} (h : parse goal text = .ok t)
    (hfirst : ∀ token s, nextToken (State.start text.toList) = .ok (token, s) → I s) :
    Made L t ∧ ∃ s, I s ∧ s.lookahead.isEnd = true := by
  unfold parse parseChars at h
  split at h
  · rename_i hrun
    cases h
    obtain ⟨hmade, hend⟩ := program_makes (rules_built _) hfirst hrun
    exact ⟨hmade, _, hend⟩
  · cases h

end NameRecovery.Grammar
