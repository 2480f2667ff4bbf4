import NameRecovery.Proofs.Printer.Coverage.Expression

/-!
# Programs are printed unless a node has no rule

* `Rules.Covers.statementAt` — the rules for statements, by the rules for their parts;
* `rules_cover` — hence the rules for every depth print exactly the printable trees;
* `render_parsed` — a parsed text is printed exactly if its tree is printable.
-/

namespace NameRecovery

namespace Printer

open Grammar NameRecovery.Tree

namespace Rules.Covers

variable {rules : Rules} {n : Nat} {t : Tree} {ts : List Tree} {fields : List (String × Tree)}
  (hr : rules.Covers n)

include hr

theorem plain (h : Within n (.one expressionKinds) t) (level minimum : Nat) :
    GivesIff (rules.plain level minimum t) t.isPrintable :=
  hr.expression h _ _

theorem part {key : String} {value : Tree} (h : Within n (.one expressionKinds) value)
    (hneed : t.need key = .ok value) (level : Nat) :
    GivesIff (rules.part level t key) value.isPrintable :=
  .step hneed (hr.plain h _ _)

theorem body {value : Tree} (h : Within n (.one statementKinds) value)
    (hneed : t.need "body" = .ok value) (level : Nat) :
    GivesIff (rules.body level t) value.isPrintable :=
  .step hneed (hr.nested h _)

theorem expressionStatement (h : Sound (n + 1) (.node "ExpressionStatement" fields))
    (level : Nat) : GivesIff (rules.expressionStatement level (.node "ExpressionStatement" fields))
      (Tree.node "ExpressionStatement" fields).isPrintable := by
  unfold Rules.expressionStatement
  rcases h.eitherParts rfl with (_ | ⟨hexpr, _ | _⟩) | (_ | ⟨hexpr, _ | ⟨hdirective, _ | _⟩⟩)
  · exact .congr (.last (hr.part hexpr rfl level)) (by simp [unprintedKinds])
  · obtain ⟨directive, rfl⟩ := hdirective.text
    exact .congr (.last (hr.part hexpr rfl level)) (by simp [unprintedKinds])

/-! ## Declarations -/

theorem declarator (h : Within n (.one ["VariableDeclarator"]) t) (place : Place) :
    GivesIff (rules.declarator place t) t.isPrintable := by
  obtain ⟨fields, rfl, hsound⟩ := h.only
  obtain _ | ⟨hid, _ | ⟨hinit, _ | _⟩⟩ := hsound.parts rfl
  unfold Rules.declarator
  rcases hinit.maybe with rfl | hinit
  · exact .step rfl (.congr (.last (hr.expression hid _ _)) (by simp [unprintedKinds]))
  · obtain ⟨kind, inner, rfl, -, -⟩ := hinit.node
    exact .step rfl (.congr (.bind (hr.expression hid _ _) fun _ => .last (hr.expression hinit _ _))
      (by simp [unprintedKinds]))

theorem declaration (h : Sound (n + 1) (.node "VariableDeclaration" fields)) (place : Place) :
    GivesIff (rules.declaration place (.node "VariableDeclaration" fields))
      (Tree.node "VariableDeclaration" fields).isPrintable := by
  obtain _ | ⟨hkind, _ | ⟨hdeclarations, _ | _⟩⟩ := h.parts rfl
  obtain ⟨kind, rfl⟩ := hkind.text
  obtain ⟨declarations, rfl, hall⟩ := hdeclarations.many
  have heach := GivesIff.each fun t ht => hr.declarator (hall t ht) place
  unfold Rules.declaration
  exact .step rfl (.step rfl (.congr (.bind heach fun _ => .ok trivial) (by simp [unprintedKinds])))

/-! ## Branches and loops -/

theorem ifStatement (h : Sound (n + 1) (.node "IfStatement" fields)) (level : Nat) :
    GivesIff (rules.ifStatement level (.node "IfStatement" fields))
      (Tree.node "IfStatement" fields).isPrintable := by
  obtain _ | ⟨htest, _ | ⟨hconsequent, _ | ⟨halternate, _ | _⟩⟩⟩ := h.parts rfl
  rename_i test consequent alternate
  unfold Rules.ifStatement
  rcases halternate.maybe with rfl | halternate
  · refine .congr (.bind (hr.part htest rfl level) fun _ => .step rfl
      (.last (hr.nested hconsequent level))) ?_
    simp [unprintedKinds]
  · obtain ⟨kind, inner, rfl, -, -⟩ := halternate.node
    refine .congr (P := test.isPrintable ∧ consequent.isPrintable ∧ (Tree.node kind inner).isPrintable)
      (.bind (hr.part htest rfl level) fun _ => .step rfl
        (.bind (hr.inBlock hconsequent level) fun _ => .step rfl (.ite (fun _ => ?_) fun _ => ?_)))
      (by simp [unprintedKinds])
    · exact .last (hr.statement halternate level)
    · exact .last (hr.nested halternate level)

theorem loopInit (h : Within n (.maybe ("VariableDeclaration" :: expressionKinds)) t)
    (level : Nat) : GivesIff (rules.loopInit level t) t.isPrintable := by
  unfold Rules.loopInit
  rcases h.maybe with rfl | h
  · exact .ok rfl
  · obtain ⟨kind, inner, rfl, -, hsound⟩ := h.node
    refine .step rfl (.ite ?_ fun hkind => ?_)
    · rintro rfl
      exact hr.declaration hsound _
    · exact hr.expression (h.tail (by simpa [isKind, kind?] using hkind)) _ _

theorem loopPart (h : Within n (.maybe expressionKinds) t) (level : Nat) :
    GivesIff (rules.loopPart level t) t.isPrintable := by
  unfold Rules.loopPart
  rcases h.maybe with rfl | h
  · exact .ok rfl
  · obtain ⟨kind, inner, rfl, -, -⟩ := h.node
    exact .last (hr.plain h _ _)

theorem forStatement (h : Sound (n + 1) (.node "ForStatement" fields)) (level : Nat) :
    GivesIff (rules.forStatement level (.node "ForStatement" fields))
      (Tree.node "ForStatement" fields).isPrintable := by
  obtain _ | ⟨hinit, _ | ⟨htest, _ | ⟨hupdate, _ | ⟨hbody, _ | _⟩⟩⟩⟩ := h.parts rfl
  unfold Rules.forStatement
  refine .congr (.bind (hr.loopInit hinit level) fun _ => .bind (hr.loopPart htest level) fun _ =>
    .bind (hr.loopPart hupdate level) fun _ => .last (hr.body hbody rfl level)) ?_
  simp [unprintedKinds]

theorem loopTarget (h : Within n (.one ("VariableDeclaration" :: expressionKinds)) t)
    (level : Nat) : GivesIff (rules.loopTarget level t) t.isPrintable := by
  obtain ⟨kind, inner, rfl, -, hsound⟩ := h.node
  unfold Rules.loopTarget
  refine .step rfl (.ite ?_ fun hkind => ?_)
  · rintro rfl
    exact hr.declaration hsound _
  · exact hr.plain (h.tail (by simpa [isKind, kind?] using hkind)) _ _

theorem forEach {kind : String} (h : Sound (n + 1) (.node kind fields))
    (hkind : kind = "ForInStatement" ∨ kind = "ForOfStatement") (word : String)
    (minimum level : Nat) : GivesIff (rules.forEach word minimum level (.node kind fields))
      (Tree.node kind fields).isPrintable := by
  obtain ⟨left, right, body, more, rfl, hleft, hright, hbody, hmore⟩ : ∃ left right body more,
      fields = ("left", left) :: ("right", right) :: ("body", body) :: more ∧
      Within n (.one ("VariableDeclaration" :: expressionKinds)) left ∧
      Within n (.one expressionKinds) right ∧ Within n (.one statementKinds) body ∧
      arePrintableFields more = true := by
    rcases hkind with rfl | rfl
    · obtain _ | ⟨hleft, _ | ⟨hright, _ | ⟨hbody, _ | ⟨heach, _ | _⟩⟩⟩⟩ := h.parts rfl
      obtain ⟨each, rfl⟩ := heach.flag
      exact ⟨_, _, _, _, rfl, hleft, hright, hbody, by simp⟩
    · obtain _ | ⟨hleft, _ | ⟨hright, _ | ⟨hbody, _ | _⟩⟩⟩ := h.parts rfl
      exact ⟨_, _, _, _, rfl, hleft, hright, hbody, by simp⟩
  unfold Rules.forEach
  refine .step rfl (.congr (.bind (hr.loopTarget hleft level) fun _ => .step rfl
    (.bind (hr.plain hright _ _) fun _ => .last (hr.body hbody rfl level))) ?_)
  rcases hkind with rfl | rfl <;> simp [unprintedKinds, hmore]

/-- A loop or `with` with its head in parentheses. -/
theorem headed {kind key : String} (h : Sound (n + 1) (.node kind fields))
    (hkind : kind = "WhileStatement" ∧ key = "test" ∨ kind = "WithStatement" ∧ key = "object")
    (word : String) (level : Nat) :
    GivesIff (rules.headed word key level (.node kind fields))
      (Tree.node kind fields).isPrintable := by
  have hparts : Parts n [(key, .one expressionKinds), ("body", .one statementKinds)] fields := by
    rcases hkind with ⟨rfl, rfl⟩ | ⟨rfl, rfl⟩ <;> exact h.parts rfl
  obtain _ | ⟨hhead, _ | ⟨hbody, _ | _⟩⟩ := hparts
  rename_i head body
  have hneed : (Tree.node kind [(key, head), ("body", body)]).need key = .ok head ∧
      (Tree.node kind [(key, head), ("body", body)]).need "body" = .ok body := by
    rcases hkind with ⟨rfl, rfl⟩ | ⟨rfl, rfl⟩ <;> exact ⟨rfl, rfl⟩
  unfold Rules.headed
  refine .congr (.bind (hr.part hhead hneed.1 level) fun _ =>
    .last (hr.body hbody hneed.2 level)) ?_
  rcases hkind with ⟨rfl, rfl⟩ | ⟨rfl, rfl⟩ <;> simp [unprintedKinds]

theorem doWhile (h : Sound (n + 1) (.node "DoWhileStatement" fields)) (level : Nat) :
    GivesIff (rules.doWhile level (.node "DoWhileStatement" fields))
      (Tree.node "DoWhileStatement" fields).isPrintable := by
  obtain _ | ⟨hbody, _ | ⟨htest, _ | _⟩⟩ := h.parts rfl
  unfold Rules.doWhile
  refine .congr (.bind (hr.part htest rfl level) fun _ => .last (hr.body hbody rfl level)) ?_
  simp [unprintedKinds, and_comm]

/-! ## Jumps -/

omit hr in
theorem jump {kind : String} (h : Sound (n + 1) (.node kind fields))
    (hkind : kind = "BreakStatement" ∨ kind = "ContinueStatement") (word : String) :
    GivesIff (Rules.jump word (.node kind fields)) (Tree.node kind fields).isPrintable := by
  have hparts : Parts n [("label", .maybe ["Identifier"])] fields := by
    rcases hkind with rfl | rfl <;> exact h.parts rfl
  obtain _ | ⟨hlabel, _ | _⟩ := hparts
  rcases hlabel.maybe with rfl | hlabel
  · rcases hkind with rfl | rfl <;> exact .ok (by simp [unprintedKinds])
  · obtain ⟨name, rfl⟩ := hlabel.identifier
    rcases hkind with rfl | rfl <;> exact .ok (by simp [Grammar.identifier, unprintedKinds])

theorem returnStatement (h : Sound (n + 1) (.node "ReturnStatement" fields)) (level : Nat) :
    GivesIff (rules.returnStatement level (.node "ReturnStatement" fields))
      (Tree.node "ReturnStatement" fields).isPrintable := by
  obtain _ | ⟨hargument, _ | _⟩ := h.parts rfl
  unfold Rules.returnStatement
  rcases hargument.maybe with rfl | hargument
  · exact .ok (by simp [unprintedKinds])
  · obtain ⟨kind, inner, rfl, -, -⟩ := hargument.node
    exact .congr (.last (hr.plain hargument _ _)) (by simp [unprintedKinds])

theorem throwStatement (h : Sound (n + 1) (.node "ThrowStatement" fields)) (level : Nat) :
    GivesIff (rules.throwStatement level (.node "ThrowStatement" fields))
      (Tree.node "ThrowStatement" fields).isPrintable := by
  obtain _ | ⟨hargument, _ | _⟩ := h.parts rfl
  unfold Rules.throwStatement
  exact .congr (.last (hr.part hargument rfl level)) (by simp [unprintedKinds])

theorem labelled (h : Sound (n + 1) (.node "LabeledStatement" fields)) (level : Nat) :
    GivesIff (rules.labelled level (.node "LabeledStatement" fields))
      (Tree.node "LabeledStatement" fields).isPrintable := by
  obtain _ | ⟨hlabel, _ | ⟨hbody, _ | _⟩⟩ := h.parts rfl
  obtain ⟨name, rfl⟩ := hlabel.identifier
  unfold Rules.labelled
  refine .step rfl (.step rfl (.congr (.last (hr.statement hbody level)) ?_))
  simp [Grammar.identifier, unprintedKinds]

/-! ## Exceptions and switches -/

theorem handler (h : Within n (.one ["CatchClause"]) t) (level : Nat) :
    GivesIff (rules.handler level t) t.isPrintable := by
  obtain ⟨fields, rfl, hsound⟩ := h.only
  obtain _ | ⟨hparam, _ | ⟨hbody, _ | _⟩⟩ := hsound.parts rfl
  obtain ⟨kind, inner, rfl, -, -⟩ := hparam.node
  unfold Rules.handler
  refine .step rfl (.congr (.bind (hr.plain hparam _ _) fun _ => .step rfl (.step rfl
    (.last (hr.blockIn hbody level)))) ?_)
  simp [unprintedKinds]

theorem tryStatement (h : Sound (n + 1) (.node "TryStatement" fields)) (level : Nat) :
    GivesIff (rules.tryStatement level (.node "TryStatement" fields))
      (Tree.node "TryStatement" fields).isPrintable := by
  obtain _ | ⟨hblock, _ | ⟨hhandler, _ | ⟨hfinalizer, _ | _⟩⟩⟩ := h.parts rfl
  rename_i block handler finalizer
  unfold Rules.tryStatement
  refine .step rfl (.congr (P := block.isPrintable ∧ handler.isPrintable ∧ finalizer.isPrintable)
    (.bind (hr.blockIn hblock level) fun text => ?_) (by simp [unprintedKinds]))
  extract_lets rest
  have hrest : ∀ caught, GivesIff (rest caught) finalizer.isPrintable := by
    intro caught
    rcases hfinalizer.maybe with rfl | hfinalizer
    · exact .ok rfl
    · obtain ⟨inner, rfl, -⟩ := hfinalizer.only
      exact .last (hr.blockIn hfinalizer level)
  rcases hhandler.maybe with rfl | hhandler
  · exact .congr (.step rfl (hrest _)) (by simp)
  · obtain ⟨inner, rfl, -⟩ := hhandler.only
    exact .bind (hr.handler hhandler level) hrest

theorem switchCase (h : Within n (.one ["SwitchCase"]) t) (level : Nat) :
    GivesIff (rules.switchCase level t) t.isPrintable := by
  obtain ⟨fields, rfl, hsound⟩ := h.only
  obtain _ | ⟨htest, _ | ⟨hconsequent, _ | _⟩⟩ := hsound.parts rfl
  obtain ⟨consequent, rfl, hall⟩ := hconsequent.many
  rename_i test
  unfold Rules.switchCase
  refine .step rfl (.congr (P := test.isPrintable ∧ (Tree.list consequent).isPrintable) ?_
    (by simp [unprintedKinds]))
  extract_lets test' rest
  have hrest : ∀ label, GivesIff (rest label) (Tree.list consequent).isPrintable := fun label =>
    .step (items_list consequent) (.last (.each fun t ht => hr.statement (hall t ht) _))
  rcases htest.maybe with rfl | htest
  · exact .congr (.step rfl (hrest _)) (by simp)
  · obtain ⟨kind, inner, rfl, -, -⟩ := htest.node
    exact .bind (hr.plain htest _ _) fun _ => .step rfl (hrest _)

theorem switchCases (h : ∀ t ∈ ts, Within n (.one ["SwitchCase"]) t) (level : Nat) :
    GivesIff (rules.switchCases level ts) (Tree.list ts).isPrintable := by
  induction ts with
  | nil => exact .ok (by simp)
  | cons t rest ih =>
      rw [List.forall_mem_cons] at h
      unfold Rules.switchCases
      exact .congr (.bind (hr.switchCase h.1 level) fun _ => .last (ih h.2)) (by simp)

theorem switchStatement (h : Sound (n + 1) (.node "SwitchStatement" fields)) (level : Nat) :
    GivesIff (rules.switchStatement level (.node "SwitchStatement" fields))
      (Tree.node "SwitchStatement" fields).isPrintable := by
  obtain _ | ⟨hdiscriminant, _ | ⟨hcases, _ | _⟩⟩ := h.parts rfl
  obtain ⟨cases, rfl, hall⟩ := hcases.many
  unfold Rules.switchStatement
  refine .congr (.bind (Q := (Tree.list cases).isPrintable) (hr.part hdiscriminant rfl level)
    fun _ => .step (items_list cases) (.ite (fun hempty => .ok ?_) fun _ => ?_))
    (by simp [unprintedKinds])
  · rw [List.isEmpty_iff.1 hempty]
    simp
  · exact .last (hr.switchCases hall level)

/-! ## Imports and exports -/

omit hr in
theorem moduleName (h : Within n (.one ["Literal"]) t) :
    GivesIff (Printer.moduleName t) t.isPrintable := by
  obtain ⟨fields, rfl, hsound⟩ := h.only
  exact .ok (literal_isPrintable hsound)

omit hr in
/-- Every imported name is printed. -/
theorem importSpecifier (h : Within n (.one importKinds) t) :
    GivesIff (Rules.importSpecifier t) t.isPrintable := by
  obtain ⟨kind, fields, rfl, hkind, hsound⟩ := h.node
  simp only [importKinds, List.mem_cons, List.not_mem_nil, or_false] at hkind
  rcases hkind with rfl | rfl | rfl
  · obtain _ | ⟨himported, _ | ⟨hlocal, _ | _⟩⟩ := hsound.parts rfl
    obtain ⟨there, rfl⟩ := himported.identifier
    obtain ⟨here, rfl⟩ := hlocal.identifier
    exact .ok (by simp [Grammar.identifier, unprintedKinds])
  · obtain _ | ⟨hlocal, _ | _⟩ := hsound.parts rfl
    obtain ⟨here, rfl⟩ := hlocal.identifier
    exact .ok (by simp [Grammar.identifier, unprintedKinds])
  · obtain _ | ⟨hlocal, _ | _⟩ := hsound.parts rfl
    obtain ⟨here, rfl⟩ := hlocal.identifier
    exact .ok (by simp [Grammar.identifier, unprintedKinds])

omit hr in
theorem importSpecifiers (h : ∀ t ∈ ts, Within n (.one importKinds) t) :
    GivesIff (Rules.importSpecifiers ts) (Tree.list ts).isPrintable := by
  induction ts with
  | nil => exact .ok (by simp)
  | cons t rest ih =>
      rw [List.forall_mem_cons] at h
      unfold Rules.importSpecifiers
      exact .congr (.bind (importSpecifier h.1) fun _ => .last (ih h.2)) (by simp)

omit hr in
theorem importDeclaration (h : Sound (n + 1) (.node "ImportDeclaration" fields)) :
    GivesIff (Rules.importDeclaration (.node "ImportDeclaration" fields))
      (Tree.node "ImportDeclaration" fields).isPrintable := by
  obtain _ | ⟨hspecifiers, _ | ⟨hsource, _ | _⟩⟩ := h.parts rfl
  obtain ⟨specifiers, rfl, hall⟩ := hspecifiers.many
  unfold Rules.importDeclaration
  refine .step rfl (.congr (.bind (Q := (Tree.list specifiers).isPrintable) (moduleName hsource)
    fun _ => .step (items_list specifiers) (.ite (fun hempty => .ok ?_) fun _ => ?_))
    (by simp [unprintedKinds, and_comm]))
  · rw [List.isEmpty_iff.1 hempty]
    simp
  · exact .last (importSpecifiers hall)

omit hr in
/-- An exported name is printed exactly if it stands in the braces. -/
theorem exportSpecifier (h : Within n (.one ["ExportSpecifier", "ExportDefaultSpecifier"]) t) :
    GivesIff (Rules.exportSpecifier t) t.isPrintable := by
  obtain ⟨kind, fields, rfl, hkind, hsound⟩ := h.node
  simp only [List.mem_cons, List.not_mem_nil, or_false] at hkind
  rcases hkind with rfl | rfl
  · obtain _ | ⟨hlocal, _ | ⟨hexported, _ | _⟩⟩ := hsound.parts rfl
    obtain ⟨here, rfl⟩ := hlocal.identifier
    obtain ⟨there, rfl⟩ := hexported.identifier
    exact .ok (by simp [Grammar.identifier, unprintedKinds])
  · obtain _ | ⟨hlocal, _ | _⟩ := hsound.parts rfl
    obtain ⟨here, rfl⟩ := hlocal.identifier
    exact ⟨by simp [unprintedKinds], by decide⟩

theorem exportNamed (h : Sound (n + 1) (.node "ExportNamedDeclaration" fields)) (level : Nat) :
    GivesIff (rules.exportNamed level (.node "ExportNamedDeclaration" fields))
      (Tree.node "ExportNamedDeclaration" fields).isPrintable := by
  have hone := h.fits
  obtain _ | ⟨hdeclaration, _ | ⟨hspecifiers, _ | ⟨hsource, _ | _⟩⟩⟩ := h.parts rfl
  obtain ⟨specifiers, rfl, hall⟩ := hspecifiers.many
  rename_i declaration source
  unfold Rules.exportNamed
  rcases hdeclaration.maybe with rfl | hdeclared
  · refine .step (items_list specifiers) (.congr (.bind (Q := source.isPrintable)
      (.each fun t ht => exportSpecifier (hall t ht)) fun _ => ?_) (by simp [unprintedKinds]))
    rcases hsource.maybe with rfl | hsource
    · exact .ok rfl
    · obtain ⟨inner, rfl, -⟩ := hsource.only
      exact .last (moduleName hsource)
  · -- A declaration is exported without any names beside it.
    obtain ⟨kind, inner, rfl, -, -⟩ := hdeclared.node
    obtain rfl : specifiers = [] := by
      rcases hone with hnull | hempty
      · cases hnull
      · cases hempty
        rfl
    have hplain : source.isPrintable = true := by
      rcases hsource.maybe with rfl | hsource
      · rfl
      · obtain ⟨inner, rfl, hliteral⟩ := hsource.only
        exact literal_isPrintable hliteral
    exact .congr (.last (hr.statement hdeclared level)) (by simp [unprintedKinds, hplain])

theorem exportDefault (h : Sound (n + 1) (.node "ExportDefaultDeclaration" fields))
    (level : Nat) : GivesIff (rules.exportDefault level (.node "ExportDefaultDeclaration" fields))
      (Tree.node "ExportDefaultDeclaration" fields).isPrintable := by
  obtain _ | ⟨hdeclaration, _ | _⟩ := h.parts rfl
  obtain ⟨kind, inner, rfl, hkind, -⟩ := hdeclaration.node
  unfold Rules.exportDefault
  refine .step rfl (.step rfl (.congr (P := (Tree.node kind inner).isPrintable)
    (.ite (fun hdeclared => ?_) fun hvalue => ?_) (by simp [unprintedKinds])))
  · refine .last (hr.statement ⟨isAny_iff.2 ⟨kind, inner, rfl, ?_⟩, hdeclaration.2⟩ level)
    rcases hdeclared with rfl | rfl <;> decide
  · refine .last (hr.plain ⟨isAny_iff.2 ⟨kind, inner, rfl, ?_⟩, hdeclaration.2⟩ _ _)
    simp only [not_or] at hvalue
    simpa [hvalue] using hkind

/-! ## All statements -/

omit hr in
/-- A statement is printed if the form of its kind prints it. -/
theorem of_statementForm {kind : String} {form : Nat → Tree → Print} {P : Prop} {level : Nat}
    (hform : rules.statementForm? kind = some form)
    (hgives : GivesIff (form level (.node kind fields)) P) :
    GivesIff (rules.statementAt level (.node kind fields)) P := by
  unfold Rules.statementAt
  refine .step rfl ?_
  rw [hform]
  exact hgives

/-- Every statement is printed, unless a node has no rule. -/
theorem statementAt (h : Within (n + 1) (.one statementKinds) t) (level : Nat) :
    GivesIff (rules.statementAt level t) t.isPrintable := by
  obtain ⟨kind, fields, rfl, hkind⟩ := isAny_iff.1 h.1
  have hsound := h.2
  simp only [statementKinds, List.mem_cons, List.not_mem_nil, or_false] at hkind
  rcases hkind with rfl | rfl | rfl | rfl | rfl | rfl | rfl | rfl | rfl | rfl | rfl | rfl | rfl |
    rfl | rfl | rfl | rfl | rfl | rfl | rfl | rfl | rfl | rfl | rfl | rfl
  · exact of_statementForm rfl (hr.expressionStatement hsound level)
  · exact of_statementForm rfl (hr.blockOf hsound level)
  · exact of_statementForm rfl (.ok (word_isPrintable hsound (by decide)))
  · exact of_statementForm rfl (.ok (word_isPrintable hsound (by decide)))
  · exact of_statementForm rfl (hr.headed hsound (.inr ⟨rfl, rfl⟩) _ level)
  · exact of_statementForm rfl (hr.returnStatement hsound level)
  · exact of_statementForm rfl (hr.labelled hsound level)
  · exact of_statementForm rfl (jump hsound (.inl rfl) _)
  · exact of_statementForm rfl (jump hsound (.inr rfl) _)
  · exact of_statementForm rfl (hr.ifStatement hsound level)
  · exact of_statementForm rfl (hr.switchStatement hsound level)
  · exact of_statementForm rfl (hr.throwStatement hsound level)
  · exact of_statementForm rfl (hr.tryStatement hsound level)
  · exact of_statementForm rfl (hr.headed hsound (.inl ⟨rfl, rfl⟩) _ level)
  · exact of_statementForm rfl (hr.doWhile hsound level)
  · exact of_statementForm rfl (hr.forStatement hsound level)
  · exact of_statementForm rfl (hr.forEach hsound (.inl rfl) _ _ level)
  · exact of_statementForm rfl (hr.forEach hsound (.inr rfl) _ _ level)
  · exact of_statementForm rfl (hr.function hsound (.inl rfl) _)
  · exact of_statementForm rfl (.last (hr.declaration hsound _))
  · exact of_statementForm rfl (hr.classText hsound (.inl rfl) _)
  · exact of_statementForm rfl (importDeclaration hsound)
  · exact of_statementForm rfl (hr.exportNamed hsound level)
  · exact of_statementForm rfl (hr.exportDefault hsound level)
  · obtain _ | ⟨hsource, _ | _⟩ := hsound.parts rfl
    refine of_statementForm rfl (.step rfl (.congr (.last (moduleName hsource)) ?_))
    simp [unprintedKinds]

end Rules.Covers

/-! ## Programs -/

/-- The rules for a depth print exactly the printable trees of less than the depth. -/
theorem rules_cover (indent : String) (n : Nat) : (rules indent n).Covers n := by
  induction n with
  | zero =>
      exact ⟨fun h => absurd h.2.shallow (Nat.not_lt_zero _),
        fun h => absurd h.2.shallow (Nat.not_lt_zero _)⟩
  | succ n ih => exact ⟨ih.statementAt, ih.expressionAt⟩

end Printer

open Printer Grammar NameRecovery.Tree

/-- Nothing is asked of the tokens. -/
instance : Steady fun _ => True where
  frame _ _ _ _ _ := trivial
  next _ _ := trivial
  after _ _ := trivial
  regex _ _ _ := trivial

instance : Spoken Lexicon.anything fun _ => True := spoken_anything _

/-- The tree of a parsed text is sound at every depth above its own. -/
theorem sound_of_parse {goal : Goal} {source : String} {t : Tree} {n : Nat}
    (h : parse goal source = .ok t) (hn : t.depth < n) : Sound n t :=
  ⟨(Bool.and_eq_true_iff.1 (isProgram_of_parse h)).2,
    (made_of_parse (I := fun _ => True) h fun _ _ _ => trivial).1, hn⟩

theorem render_givesIff {goal : Goal} {source : String} {t : Tree} (h : parse goal source = .ok t)
    (indent : String) : GivesIff (t.render indent) t.isPrintable := by
  have hsound := sound_of_parse h (Nat.lt_succ_of_lt (Nat.lt_succ_self t.depth))
  obtain ⟨hkind, -⟩ := Bool.and_eq_true_iff.1 (isProgram_of_parse h)
  cases t with
  | node kind fields =>
      obtain rfl : kind = "Program" := by simpa [isKind, kind?] using hkind
      obtain _ | ⟨hsourceType, _ | ⟨hbody, _ | _⟩⟩ := hsound.parts rfl
      obtain ⟨sourceType, rfl⟩ := hsourceType.text
      obtain ⟨body, rfl, hall⟩ := hbody.many
      unfold Tree.render
      refine .step rfl (.step (items_list body) (.congr (P := (Tree.list body).isPrintable)
        (.ite (fun hempty => .ok ?_) fun _ => .last (.each fun t ht => ?_))
        (by simp [unprintedKinds])))
      · rw [List.isEmpty_iff.1 hempty]
        simp
      · exact (rules_cover indent _).statement (⟨(hall t ht).1, (hall t ht).2.succ⟩) 0
  | _ => cases hkind

/-- The tree of an accepted text is printed exactly if there is a rule for each of its
nodes.  The only ones without are names before the braces of an export, where the name
they are exported as is missed, and parameters of an arrow function that never comes. -/
theorem render_parsed_iff (goal : Goal) (source indent : String) (t : Tree)
    (h : parse goal source = .ok t) :
    ((∃ text, t.render indent = .ok text) ↔ t.isPrintable = true) ∧
      ∀ fault, t.render indent = .error fault → fault ∈ unprintedFaults :=
  ⟨(render_givesIff h indent).result, fun _ => (render_givesIff h indent).fault⟩

/-- The fault an accepted text is printed with, if there is one. -/
def printingFault? (goal : Goal) (source : String) : Option Fault :=
  match parse goal source with
  | .ok t =>
    match t.render defaultIndent with
    | .ok _ => none
    | .error fault => some fault
  | .error _ => none

theorem printingFault?_eq_some {goal : Goal} {source : String} {fault : Fault}
    (h : printingFault? goal source = some fault) :
    ∃ t, parse goal source = .ok t ∧ t.render defaultIndent = .error fault := by
  unfold printingFault? at h
  split at h
  · rename_i t hparse
    split at h
    · cases h
    · rename_i hprint
      cases h
      exact ⟨t, hparse, hprint⟩
  · cases h

set_option maxRecDepth 100000 in
/-- A name exported from another module has a specifier that cannot be printed. -/
theorem export_name_not_printable :
    ∃ t, parse .module "export a from 'm'" = .ok t ∧ t.isPrintable = false ∧
      ∀ text, t.render defaultIndent ≠ .ok text := by
  have hfree : (parse .module "export a from 'm'").toOption.map Tree.isPrintable = some false := by
    decide +kernel
  obtain ⟨t, ht, hunprintable⟩ := Option.map_eq_some_iff.1 hfree
  have hparse := ok_of_toOption ht
  refine ⟨t, hparse, hunprintable, fun text htext => ?_⟩
  have hprintable := (render_parsed_iff _ _ defaultIndent t hparse).1.1 ⟨text, htext⟩
  rw [hunprintable] at hprintable
  cases hprintable

set_option maxRecDepth 100000 in
/-- A name exported from another module, and parentheses with a comma at their end that no
arrow follows, are accepted and not printed. -/
theorem accepted_not_printed :
    (∃ t, parse .module "export a from 'm'" = .ok t ∧
      t.render defaultIndent = .error (.missingField "exported")) ∧
    ∃ t, parse .script "(a,) + 1" = .ok t ∧
      t.render defaultIndent = .error (.noExpressionForm "'ArrowParameterPlaceHolder'") := by
  refine ⟨printingFault?_eq_some ?_, printingFault?_eq_some ?_⟩
  all_goals decide +kernel

end NameRecovery
