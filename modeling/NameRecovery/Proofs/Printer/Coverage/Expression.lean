import NameRecovery.Proofs.Printer.Coverage.Basic

/-!
# Expressions are printed unless a node has no rule
-/

namespace NameRecovery.Printer

open Grammar NameRecovery.Tree

/-- Do the rules print exactly the printable trees up to the depth? -/
structure Rules.Covers (rules : Rules) (n : Nat) : Prop where
  /-- Statements. -/
  statement : ∀ {t}, Within n (.one statementKinds) t → ∀ level,
    GivesIff (rules.statement level t) t.isPrintable
  /-- Expressions. -/
  expression : ∀ {t}, Within n (.one expressionKinds) t → ∀ place minimum,
    GivesIff (rules.expression place minimum t) t.isPrintable

namespace Rules.Covers

variable {rules : Rules} {n : Nat} {t : Tree} {ts : List Tree} {fields : List (String × Tree)}
  (hr : rules.Covers n)

include hr

/-! ## Blocks and lists -/

theorem block (h : ∀ t ∈ ts, Within n (.one statementKinds) t) (level : Nat) :
    GivesIff (rules.block level ts) (Tree.list ts).isPrintable := by
  unfold Rules.block
  refine .ite (fun hempty => .ok ?_) fun _ => .last (.each fun t ht => hr.statement (h t ht) _)
  rw [List.isEmpty_iff.1 hempty]
  simp

theorem blockOf (h : Sound (n + 1) (.node "BlockStatement" fields)) (level : Nat) :
    GivesIff (rules.blockOf level (.node "BlockStatement" fields))
      (Tree.node "BlockStatement" fields).isPrintable := by
  obtain _ | ⟨hbody, _ | _⟩ := h.parts rfl
  obtain ⟨body, rfl, hall⟩ := hbody.many
  unfold Rules.blockOf
  exact .step rfl (.step (items_list body) ((hr.block hall level).congr (by simp [unprintedKinds])))

theorem blockIn (h : Within n (.one ["BlockStatement"]) t) (level : Nat) :
    GivesIff (rules.blockOf level t) t.isPrintable := by
  obtain ⟨fields, rfl, hsound⟩ := h.only
  exact hr.blockOf hsound level

theorem nested (h : Within n (.one statementKinds) t) (level : Nat) :
    GivesIff (rules.nested level t) t.isPrintable := by
  obtain ⟨kind, fields, rfl, -, hsound⟩ := h.node
  unfold Rules.nested
  refine .step rfl (.ite ?_ fun _ => hr.statement h level)
  rintro rfl
  exact hr.blockOf hsound level

theorem inBlock (h : Within n (.one statementKinds) t) (level : Nat) :
    GivesIff (rules.inBlock level t) t.isPrintable := by
  obtain ⟨kind, fields, rfl, -, hsound⟩ := h.node
  unfold Rules.inBlock
  refine .step rfl (.ite ?_ fun _ => (hr.block ?_ level).congr (by simp))
  · rintro rfl
    exact hr.blockOf hsound level
  · exact fun t ht => List.mem_singleton.1 ht ▸ h

theorem arguments (h : ∀ t ∈ ts, Within n (.one expressionKinds) t) (place : Place) :
    GivesIff (rules.arguments place ts) (Tree.list ts).isPrintable := by
  have hfilter : ts.filter (fun arg => !arg.isNull) = ts := by
    refine List.filter_eq_self.2 fun t ht => ?_
    obtain ⟨kind, fields, rfl, -, -⟩ := (h t ht).node
    rfl
  unfold Rules.arguments
  rw [hfilter]
  exact .last (.each fun t ht => hr.expression (h t ht) _ _)

/-! ## Functions -/

omit hr in
theorem function_shape {kind : String} (h : Sound (n + 1) (.node kind fields))
    (hkind : kind = "FunctionDeclaration" ∨ kind = "FunctionExpression") :
    ∃ id params body generator async expression, fields = [("id", id), ("params", .list params),
      ("body", body), ("generator", .bool generator), ("async", .bool async),
      ("expression", .bool expression)] ∧ (id = .null ∨ ∃ name, id = Grammar.identifier name) ∧
      (∀ t ∈ params, Within n (.one expressionKinds) t) ∧ Within n (.one ["BlockStatement"]) body := by
  have hparts : Parts n [("id", .maybe ["Identifier"]), ("params", .many expressionKinds),
      ("body", .one ["BlockStatement"]), ("generator", .flag), ("async", .flag),
      ("expression", .flag)] fields := by
    rcases hkind with rfl | rfl <;> exact h.parts rfl
  obtain _ | ⟨hid, _ | ⟨hparams, _ | ⟨hbody, _ | ⟨hgenerator, _ | ⟨hasync, _ | ⟨hexpr, _ | _⟩⟩⟩⟩⟩⟩ :=
    hparts
  obtain ⟨params, rfl, hall⟩ := hparams.many
  obtain ⟨generator, rfl⟩ := hgenerator.flag
  obtain ⟨async, rfl⟩ := hasync.flag
  obtain ⟨expression, rfl⟩ := hexpr.flag
  exact ⟨_, params, _, generator, async, expression, rfl, hid.maybe.imp_right Within.identifier,
    hall, hbody⟩

theorem functionTail {kind : String} (h : Sound (n + 1) (.node kind fields))
    (hkind : kind = "FunctionDeclaration" ∨ kind = "FunctionExpression") (place : Place) :
    GivesIff (rules.functionTail place (.node kind fields)) (Tree.node kind fields).isPrintable := by
  obtain ⟨id, params, body, generator, async, expression, rfl, hid, hparams, hbody⟩ :=
    function_shape h hkind
  unfold Rules.functionTail
  refine .step rfl (.step (items_list params) (.congr (.bind (hr.arguments hparams place) fun _ =>
    .step rfl (.last (hr.blockIn hbody _))) ?_))
  rcases hkind with rfl | rfl <;> rcases hid with rfl | ⟨name, rfl⟩ <;>
    simp [unprintedKinds, Grammar.identifier]

theorem function {kind : String} (h : Sound (n + 1) (.node kind fields))
    (hkind : kind = "FunctionDeclaration" ∨ kind = "FunctionExpression") (place : Place) :
    GivesIff (rules.function place (.node kind fields)) (Tree.node kind fields).isPrintable := by
  have htail := hr.functionTail h hkind place
  obtain ⟨id, params, body, generator, async, expression, rfl, hid, -, -⟩ := function_shape h hkind
  unfold Rules.function
  rcases hid with rfl | ⟨name, rfl⟩
  · exact .last htail
  · exact .step rfl (.step rfl (.last htail))

theorem arrow (h : Sound (n + 1) (.node "ArrowFunctionExpression" fields)) (place : Place) :
    GivesIff (rules.arrow place (.node "ArrowFunctionExpression" fields))
      (Tree.node "ArrowFunctionExpression" fields).isPrintable := by
  obtain _ | ⟨hparams, _ | ⟨hbody, _ | ⟨hgenerator, _ | ⟨hasync, _ | ⟨hexpr, _ | _⟩⟩⟩⟩⟩ := h.parts rfl
  obtain ⟨params, rfl, hall⟩ := hparams.many
  obtain ⟨generator, rfl⟩ := hgenerator.flag
  obtain ⟨async, rfl⟩ := hasync.flag
  obtain ⟨expression, rfl⟩ := hexpr.flag
  obtain ⟨kind, inner, rfl, -, hsound⟩ := hbody.node
  unfold Rules.arrow
  refine .step (items_list params) (.congr (.bind (Q := (Tree.node kind inner).isPrintable)
    (hr.arguments hall place) fun _ => .step rfl (.step rfl (.ite ?_ fun hkind => ?_)))
    (by simp [unprintedKinds]))
  · rintro rfl
    exact .last (hr.blockOf hsound _)
  · refine .last (hr.expression (hbody.tail ?_) _ _)
    simpa [isKind, kind?] using hkind


/-! ## Properties and classes -/

/-- A key, computed or not. -/
theorem propertyKey {key : Tree} (hkey : Within n (.one expressionKinds) key)
    (hneed : t.need "key" = .ok key) (place : Place) :
    GivesIff (rules.propertyKey place t) key.isPrintable := by
  obtain ⟨kind, inner, rfl, -, hsound⟩ := hkey.node
  unfold Rules.propertyKey
  refine .step hneed (.ite (fun _ => .last (hr.expression hkey _ _)) fun _ => .step rfl (.ite ?_ ?_))
  · rintro rfl
    obtain _ | ⟨hname, _ | _⟩ := hsound.parts rfl
    obtain ⟨name, rfl⟩ := hname.text
    exact .ok (by simp [unprintedKinds])
  · exact fun _ => hr.expression hkey _ _

omit hr in
/-- What a shorthand leaves to print is its default, if any. -/
theorem shorthandDefault_spec {value : Tree} (hvalue : Within n (.one expressionKinds) value)
    (key : String) : ∃ found, shorthandDefault key value = .ok found ∧
      (found = some none → value.isPrintable = true) ∧
      ∀ right, found = some (some right) → Within n (.one expressionKinds) right ∧
        right.isPrintable = value.isPrintable := by
  obtain ⟨kind, fields, rfl, -, hsound⟩ := hvalue.node
  by_cases hplain : kind = "Identifier"
  · subst hplain
    obtain _ | ⟨hname, _ | _⟩ := hsound.parts rfl
    obtain ⟨name, rfl⟩ := hname.text
    refine ⟨if isText key (.text name) then some none else none, rfl, ?_, ?_⟩
    · simp [unprintedKinds]
    · intro right hright
      split at hright <;> cases hright
  by_cases hpattern : kind = "AssignmentPattern"
  · subst hpattern
    obtain _ | ⟨hleft, _ | ⟨hright, _ | _⟩⟩ := hsound.parts rfl
    rename_i right
    obtain ⟨leftKind, inner, rfl, -, hinner⟩ := hleft.node
    by_cases hname : leftKind = "Identifier"
    · subst hname
      obtain _ | ⟨hname, _ | _⟩ := hinner.parts rfl
      obtain ⟨name, rfl⟩ := hname.text
      refine ⟨if isText key (.text name) then some (some right) else none, ?_, ?_, ?_⟩
      · change (if isText key (.text name) then _ else _ : Except Fault _) = _
        split <;> rfl
      · split <;> nofun
      · intro right hfound
        split at hfound
        · cases hfound
          exact ⟨hright, by simp [unprintedKinds]⟩
        · cases hfound
    · refine ⟨none, ?_, nofun, nofun⟩
      change (if leftKind = "Identifier" then _ else _ : Except Fault _) = _
      rw [if_neg hname]
      rfl
  · refine ⟨none, ?_, nofun, nofun⟩
    change (if kind = "Identifier" then _ else if kind = "AssignmentPattern" then _ else _ :
      Except Fault _) = _
    rw [if_neg hplain, if_neg hpattern]
    rfl

theorem property (h : Within n (.one propertyKinds) t) (place : Place) :
    GivesIff (rules.property place t) t.isPrintable := by
  obtain ⟨kind, fields, rfl, hkind, hsound⟩ := h.node
  unfold Rules.property
  refine .step rfl (.ite (fun hne => ?_) fun heq => ?_)
  · refine hr.expression ⟨isAny_iff.2 ⟨kind, fields, rfl, ?_⟩, h.2⟩ _ _
    have hsub : ∀ k ∈ propertyKinds, k ≠ "Property" → k ∈ expressionKinds := by decide
    exact hsub kind hkind hne
  · obtain rfl := not_not.1 heq
    obtain ⟨hkinds, hshape⟩ := hsound.fits
    obtain _ | ⟨hkey, _ | ⟨hcomputed, _ | ⟨hvalue, _ | ⟨htext, _ | ⟨hmethod, _ |
      ⟨hshorthand, _ | _⟩⟩⟩⟩⟩⟩ := hsound.parts rfl
    obtain ⟨computed, rfl⟩ := hcomputed.flag
    obtain ⟨text, rfl⟩ := htext.text
    obtain ⟨method, rfl⟩ := hmethod.flag
    obtain ⟨shorthand, rfl⟩ := hshorthand.flag
    rename_i key value
    have htail : text ≠ "init" ∨ method = true →
        GivesIff (rules.functionTail place value) value.isPrintable := by
      intro hfunction
      rcases hshape with ⟨hinit, hplain⟩ | ⟨found, hfound, hfunction⟩
      · cases hinit
        cases hplain
        simp at hfunction
      · cases hfound
        obtain ⟨kind, inner, rfl, -, hsound⟩ := hvalue.node
        obtain rfl : kind = "FunctionExpression" := by simpa [isKind, kind?] using hfunction
        exact hr.functionTail hsound (.inr rfl) place
    refine .congr (.bind (Q := value.isPrintable) (hr.propertyKey hkey rfl _) fun keyText =>
      .step rfl ?_) (by simp [unprintedKinds])
    refine .ite (fun haccessor => .last (htail (.inl ?_))) fun _ => .ite (fun hmethod => ?_) fun _ => ?_
    · rcases haccessor with haccessor | haccessor
      · exact fun hinit => absurd (haccessor.symm.trans hinit) (by decide)
      · exact fun hinit => absurd (haccessor.symm.trans hinit) (by decide)
    · obtain ⟨kind, inner, rfl, -, -⟩ := hvalue.node
      exact .step rfl (.last (htail (.inr hmethod)))
    · have hfull := hr.expression hvalue place assignmentLevel
      refine .ite (fun _ => ?_) fun _ => .last hfull
      obtain ⟨_ | (_ | right), hfound, hnone, hsome⟩ := shorthandDefault_spec hvalue keyText
      · exact .step hfound (.last hfull)
      · exact .step hfound (.ok (hnone rfl))
      · obtain ⟨hright, hsame⟩ := hsome right rfl
        exact .step hfound (.last (hsame ▸ hr.expression hright place assignmentLevel))

theorem member (h : Within n (.one ["MethodDefinition"]) t) (place : Place) :
    GivesIff (rules.member place t) t.isPrintable := by
  obtain ⟨fields, rfl, hsound⟩ := h.only
  obtain _ | ⟨hkey, _ | ⟨hcomputed, _ | ⟨hvalue, _ | ⟨htext, _ | ⟨hstatic, _ | _⟩⟩⟩⟩⟩ :=
    hsound.parts rfl
  obtain ⟨computed, rfl⟩ := hcomputed.flag
  obtain ⟨text, rfl⟩ := htext.text
  obtain ⟨static, rfl⟩ := hstatic.flag
  obtain ⟨inner, rfl, hfunction⟩ := hvalue.only
  rename_i key
  unfold Rules.member
  refine .step rfl ?_
  extract_lets kind rest
  have hrest : ∀ mark, GivesIff (rest mark)
      (key.isPrintable ∧ (Tree.node "FunctionExpression" inner).isPrintable) := fun mark =>
    .bind (hr.propertyKey hkey rfl _) fun _ => .last (hr.functionTail hfunction (.inr rfl) _)
  refine .congr (P := key.isPrintable ∧ (Tree.node "FunctionExpression" inner).isPrintable) ?_
    (by simp [unprintedKinds])
  exact .ite (fun _ => .step rfl (hrest _)) fun _ => .step rfl (hrest _)

theorem classText {kind : String} (h : Sound (n + 1) (.node kind fields))
    (hkind : kind = "ClassDeclaration" ∨ kind = "ClassExpression") (place : Place) :
    GivesIff (rules.classText place (.node kind fields)) (Tree.node kind fields).isPrintable := by
  have hparts : Parts n [("id", .maybe ["Identifier"]), ("superClass", .maybe expressionKinds),
    ("body", .one ["ClassBody"])] fields := by
    rcases hkind with rfl | rfl <;> exact h.parts rfl
  obtain _ | ⟨hid, _ | ⟨hparent, _ | ⟨hbody, _ | _⟩⟩⟩ := hparts
  obtain ⟨inner, rfl, hinner⟩ := hbody.only
  obtain _ | ⟨hmembers, _ | _⟩ := hinner.parts rfl
  obtain ⟨members, rfl, hall⟩ := hmembers.many
  rename_i id parent
  unfold Rules.classText
  extract_lets inner rest
  have hrest : ∀ name, GivesIff (rest name)
      (parent.isPrintable ∧ (Tree.list members).isPrintable) := by
    intro name
    dsimp -zeta only [rest]
    extract_lets rest
    have hrest : ∀ parent, GivesIff (rest parent) (Tree.list members).isPrintable := by
      intro parent
      dsimp -zeta only [rest]
      extract_lets head rest
      have hrest : GivesIff (rest members) (Tree.list members).isPrintable := by
        refine .ite (fun hempty => .ok ?_) fun _ => .last (.each fun t ht => hr.member (hall t ht) _)
        rw [List.isEmpty_iff.1 hempty]
        simp
      exact .step rfl (.step (items_list members) hrest)
    rcases hparent.maybe with rfl | hparent
    · exact .congr (.step rfl (hrest _)) (by simp)
    · obtain ⟨parentKind, fields, rfl, -, -⟩ := hparent.node
      exact .bind (hr.expression hparent _ _) fun _ => .step rfl (hrest _)
  refine .congr (P := parent.isPrintable ∧ (Tree.list members).isPrintable) ?_ ?_
  · rcases hid.maybe with rfl | hid
    · exact .step rfl (hrest _)
    · obtain ⟨name, rfl⟩ := hid.identifier
      exact .step rfl (.step rfl (.step rfl (hrest _)))
  · have hplain : id.isPrintable = true := by
      rcases hid.maybe with rfl | hid
      · rfl
      · obtain ⟨name, rfl⟩ := hid.identifier
        simp [Grammar.identifier, unprintedKinds]
    rcases hkind with rfl | rfl <;> simp [hplain, unprintedKinds]

/-! ## Arrays, objects and templates -/

theorem array {kind : String} (h : Sound (n + 1) (.node kind fields))
    (hkind : kind = "ArrayExpression" ∨ kind = "ArrayPattern") (place : Place) :
    GivesIff (rules.array place (.node kind fields)) (Tree.node kind fields).isPrintable := by
  have hparts : Parts n [("elements", .sparse expressionKinds)] fields := by
    rcases hkind with rfl | rfl <;> exact h.parts rfl
  obtain _ | ⟨helements, _ | _⟩ := hparts
  obtain ⟨elements, rfl, hall⟩ := helements.sparse
  unfold Rules.array
  refine .step (items_list elements) (.congr (.last (.each fun t ht => .ite (fun hnull => ?_) ?_)) ?_)
  · cases t with
    | null => exact .ok rfl
    | _ => cases hnull
  · exact fun hnull => hr.expression ((hall t ht).resolve_left hnull) _ _
  · rcases hkind with rfl | rfl <;> simp [unprintedKinds]

theorem object (h : Sound (n + 1) (.node "ObjectExpression" fields)) (place : Place) :
    GivesIff (rules.object place (.node "ObjectExpression" fields))
      (Tree.node "ObjectExpression" fields).isPrintable := by
  obtain _ | ⟨hproperties, _ | _⟩ := h.parts rfl
  obtain ⟨properties, rfl, hall⟩ := hproperties.many
  unfold Rules.object
  refine .step (items_list properties) (.congr (P := (Tree.list properties).isPrintable)
    (.ite (fun hempty => .ok ?_) fun _ => ?_) (by simp [unprintedKinds]))
  · rw [List.isEmpty_iff.1 hempty]
    simp
  · exact .last (.each fun t ht => hr.property (hall t ht) _)

theorem objectPattern (h : Sound (n + 1) (.node "ObjectPattern" fields)) (place : Place) :
    GivesIff (rules.objectPattern place (.node "ObjectPattern" fields))
      (Tree.node "ObjectPattern" fields).isPrintable := by
  obtain _ | ⟨hproperties, _ | _⟩ := h.parts rfl
  obtain ⟨properties, rfl, hall⟩ := hproperties.many
  unfold Rules.objectPattern
  refine .step (items_list properties) (.congr (.last (.each fun t ht => ?_))
    (by simp [unprintedKinds]))
  exact hr.property (hall t ht) _

omit hr in
/-- A piece of a template is a text. -/
theorem templatePiece_spec (h : Within n (.one ["TemplateElement"]) t) :
    (∃ piece, templatePiece t = .ok piece) ∧ t.isPrintable = true := by
  obtain ⟨fields, rfl, hsound⟩ := h.only
  obtain ⟨raw, hraw, -⟩ := hsound.fits
  obtain _ | ⟨hvalue, _ | ⟨htail, _ | _⟩⟩ := hsound.parts rfl
  obtain ⟨tail, rfl⟩ := htail.flag
  cases hraw
  exact ⟨⟨raw, rfl⟩, by simp [unprintedKinds]⟩

/-- Each substitution stands behind a piece. -/
theorem templateParts {quasis exprs : List Tree}
    (hquasis : ∀ t ∈ quasis, Within n (.one ["TemplateElement"]) t)
    (hexprs : ∀ t ∈ exprs, Within n (.one expressionKinds) t)
    (hlength : exprs.length ≤ quasis.length) (place : Place) :
    GivesIff (rules.templateParts place quasis exprs) (Tree.list exprs).isPrintable := by
  induction quasis generalizing exprs with
  | nil =>
      obtain rfl := List.length_eq_zero_iff.1 (Nat.le_zero.1 hlength)
      unfold Rules.templateParts
      exact .ok (by simp)
  | cons quasi quasis ih =>
      rw [List.forall_mem_cons] at hquasis
      obtain ⟨⟨piece, hpiece⟩, -⟩ := templatePiece_spec hquasis.1
      cases exprs with
      | nil =>
          unfold Rules.templateParts
          exact .step hpiece (.last (ih hquasis.2 nofun (Nat.zero_le _)))
      | cons expr exprs =>
          rw [List.forall_mem_cons] at hexprs
          have hrest := ih hquasis.2 hexprs.2 (Nat.le_of_succ_le_succ hlength)
          unfold Rules.templateParts
          refine .step hpiece (.congr (.bind (hr.expression hexprs.1 _ _) fun _ => .last hrest) ?_)
          simp

theorem template (h : Sound (n + 1) (.node "TemplateLiteral" fields)) (place : Place) :
    GivesIff (rules.template place (.node "TemplateLiteral" fields))
      (Tree.node "TemplateLiteral" fields).isPrintable := by
  obtain ⟨quasis, exprs, hquasis, hexprs, hlength⟩ := h.fits
  obtain _ | ⟨hquasi, _ | ⟨hexpr, _ | _⟩⟩ := h.parts rfl
  cases hquasis
  cases hexprs
  obtain ⟨_, heq, hallQuasis⟩ := hquasi.many
  cases heq
  obtain ⟨_, heq, hallExprs⟩ := hexpr.many
  cases heq
  have hpieces : (Tree.list quasis).isPrintable = true := by
    rw [isPrintable_list, List.all_eq_true]
    exact fun t ht => (templatePiece_spec (hallQuasis t ht)).2
  have hparts := hr.templateParts hallQuasis hallExprs hlength place
  unfold Rules.template
  refine .step rfl (.step (items_list quasis) (.step (items_list exprs) (.congr (.last hparts) ?_)))
  simp only [isPrintable_node, arePrintableFields_cons, hpieces]
  simp [unprintedKinds]

theorem taggedTemplate (h : Sound (n + 1) (.node "TaggedTemplateExpression" fields))
    (place : Place) : GivesIff (rules.taggedTemplate place (.node "TaggedTemplateExpression" fields))
      (Tree.node "TaggedTemplateExpression" fields).isPrintable := by
  obtain _ | ⟨htag, _ | ⟨hquasi, _ | _⟩⟩ := h.parts rfl
  obtain ⟨inner, rfl, hinner⟩ := hquasi.only
  unfold Rules.taggedTemplate
  refine .step rfl (.congr (.bind (hr.expression htag _ _) fun _ =>
    .step rfl (.last (hr.template hinner place))) ?_)
  simp [unprintedKinds]

/-! ## Members and calls -/

theorem access (h : Sound (n + 1) (.node "MemberExpression" fields)) (place : Place) :
    GivesIff (rules.access place (.node "MemberExpression" fields))
      (Tree.node "MemberExpression" fields).isPrintable := by
  have hname := h.fits
  obtain _ | ⟨hobject, _ | ⟨hproperty, _ | ⟨hcomputed, _ | _⟩⟩⟩ := h.parts rfl
  obtain ⟨computed, rfl⟩ := hcomputed.flag
  rename_i object property
  unfold Rules.access
  refine .step rfl (.congr (.bind (Q := property.isPrintable) (hr.expression hobject _ _) fun _ => ?_)
    (by simp [unprintedKinds]))
  refine .ite (fun _ => .step rfl (.last (hr.expression hproperty _ _))) fun hplain => ?_
  rcases hname with hname | ⟨found, hfound, hname⟩
  · cases hname
    exact absurd rfl hplain
  · cases hfound
    have hidentifier : Within n (.one ["Identifier"]) property := by
      obtain ⟨kind, inner, rfl, -, -⟩ := hproperty.node
      obtain rfl : kind = "Identifier" := by simpa [isKind, kind?] using hname
      exact ⟨rfl, hproperty.2⟩
    obtain ⟨name, rfl⟩ := hidentifier.identifier
    exact .ok (by simp [Grammar.identifier, unprintedKinds])

/-- The callee and the arguments of a call, of either kind. -/
theorem call_shape {kind : String} (h : Sound (n + 1) (.node kind fields))
    (hkind : kind = "CallExpression" ∨ kind = "NewExpression") :
    ∃ callee args, fields = [("callee", callee), ("arguments", .list args)] ∧
      Within n (.one expressionKinds) callee ∧
      (∀ place, GivesIff (rules.callArguments place (.node kind fields))
        (Tree.list args).isPrintable) ∧
      ((Tree.node kind fields).isPrintable ↔ callee.isPrintable ∧ (Tree.list args).isPrintable) := by
  have hparts : Parts n [("callee", .one expressionKinds), ("arguments", .many expressionKinds)]
      fields := by
    rcases hkind with rfl | rfl <;> exact h.parts rfl
  obtain _ | ⟨hcallee, _ | ⟨hargs, _ | _⟩⟩ := hparts
  obtain ⟨args, rfl, hall⟩ := hargs.many
  refine ⟨_, args, rfl, hcallee, fun place => ?_, ?_⟩
  · unfold Rules.callArguments
    exact .step (items_list args) (.last (hr.arguments hall place))
  · rcases hkind with rfl | rfl <;> simp [unprintedKinds]

theorem call (h : Sound (n + 1) (.node "CallExpression" fields)) (place : Place) :
    GivesIff (rules.call place (.node "CallExpression" fields))
      (Tree.node "CallExpression" fields).isPrintable := by
  obtain ⟨callee, args, rfl, hcallee, hargs, hiff⟩ := hr.call_shape h (.inl rfl)
  unfold Rules.call
  exact .step rfl (.congr (.bind (hr.expression hcallee _ _) fun _ => .last (hargs place)) hiff.symm)

theorem new (h : Sound (n + 1) (.node "NewExpression" fields)) (place : Place) :
    GivesIff (rules.new place (.node "NewExpression" fields))
      (Tree.node "NewExpression" fields).isPrintable := by
  obtain ⟨callee, args, rfl, hcallee, hargs, hiff⟩ := hr.call_shape h (.inr rfl)
  unfold Rules.new
  exact .step rfl (.congr (.bind (hr.expression hcallee _ _) fun _ => .last (hargs place)) hiff.symm)

/-! ## Operators -/

theorem sequence (h : Sound (n + 1) (.node "SequenceExpression" fields)) (place : Place) :
    GivesIff (rules.sequence place (.node "SequenceExpression" fields))
      (Tree.node "SequenceExpression" fields).isPrintable := by
  obtain _ | ⟨hexprs, _ | _⟩ := h.parts rfl
  obtain ⟨exprs, rfl, hall⟩ := hexprs.many
  unfold Rules.sequence
  refine .step rfl (.step rfl (.congr (.last (.each fun t ht => hr.expression (hall t ht) _ _)) ?_))
  simp [unprintedKinds]

theorem unary (h : Sound (n + 1) (.node "UnaryExpression" fields)) (place : Place) :
    GivesIff (rules.unary place (.node "UnaryExpression" fields))
      (Tree.node "UnaryExpression" fields).isPrintable := by
  obtain _ | ⟨hoperator, _ | ⟨hargument, _ | ⟨hfirst, _ | _⟩⟩⟩ := h.parts rfl
  obtain ⟨operator, rfl⟩ := hoperator.text
  obtain ⟨first, rfl⟩ := hfirst.flag
  unfold Rules.unary
  refine .step rfl (.step rfl (.congr (.bind (Q := True) (hr.expression hargument _ _) fun _ => ?_) ?_))
  · exact .ite (fun _ => .ok trivial) fun _ => .ok trivial
  · simp [unprintedKinds]

theorem update (h : Sound (n + 1) (.node "UpdateExpression" fields)) (place : Place) :
    GivesIff (rules.update place (.node "UpdateExpression" fields))
      (Tree.node "UpdateExpression" fields).isPrintable := by
  obtain _ | ⟨hoperator, _ | ⟨hargument, _ | ⟨hfirst, _ | _⟩⟩⟩ := h.parts rfl
  obtain ⟨operator, rfl⟩ := hoperator.text
  obtain ⟨first, rfl⟩ := hfirst.flag
  rename_i argument
  unfold Rules.update
  refine .step rfl (.step rfl (.congr (P := argument.isPrintable) (.ite ?_ ?_) ?_))
  · exact fun _ => .last (hr.expression hargument _ _)
  · exact fun _ => .last (hr.expression hargument _ _)
  · simp [unprintedKinds]

/-- The operands of an operator between two of them. -/
theorem operands_shape {kind : String} (h : Sound (n + 1) (.node kind fields))
    (hkind : kind ∈ ["BinaryExpression", "LogicalExpression", "AssignmentExpression"]) :
    ∃ operator left right, fields = [("operator", .text operator), ("left", left),
      ("right", right)] ∧
      (∀ place minimum, GivesIff (rules.expression place minimum left) left.isPrintable) ∧
      (∀ place minimum, GivesIff (rules.expression place minimum right) right.isPrintable) ∧
      ((Tree.node kind fields).isPrintable ↔ left.isPrintable ∧ right.isPrintable) := by
  simp only [List.mem_cons, List.not_mem_nil, or_false] at hkind
  have hparts : Parts n [("operator", .text), ("left", .one expressionKinds),
      ("right", .one expressionKinds)] fields := by
    rcases hkind with rfl | rfl | rfl <;> exact h.parts rfl
  obtain _ | ⟨hoperator, _ | ⟨hleft, _ | ⟨hright, _ | _⟩⟩⟩ := hparts
  obtain ⟨operator, rfl⟩ := hoperator.text
  refine ⟨operator, _, _, rfl, hr.expression hleft, hr.expression hright, ?_⟩
  rcases hkind with rfl | rfl | rfl <;> simp [unprintedKinds]

theorem binary {kind : String} (h : Sound (n + 1) (.node kind fields))
    (hkind : kind = "BinaryExpression" ∨ kind = "LogicalExpression") (place : Place) :
    GivesIff (rules.binary place (.node kind fields)) (Tree.node kind fields).isPrintable := by
  obtain ⟨operator, left, right, rfl, hleft, hright, hiff⟩ :=
    hr.operands_shape h (by rcases hkind with rfl | rfl <;> simp)
  have hstrength : precedence (.node kind [("operator", .text operator), ("left", left),
      ("right", right)]) = .ok (operatorLevel (.text operator)) := by
    rcases hkind with rfl | rfl <;> rfl
  unfold Rules.binary
  refine .step rfl (.step hstrength (.step rfl (.congr (.ite (fun _ => ?_) fun _ => ?_) hiff.symm)))
  · exact .bind (hleft _ _) fun _ => .step rfl (.last (hright _ _))
  · exact .bind (hleft _ _) fun _ => .step rfl (.last (hright _ _))

theorem assignment (h : Sound (n + 1) (.node "AssignmentExpression" fields)) (place : Place) :
    GivesIff (rules.assignment place (.node "AssignmentExpression" fields))
      (Tree.node "AssignmentExpression" fields).isPrintable := by
  obtain ⟨operator, left, right, rfl, hleft, hright, hiff⟩ := hr.operands_shape h (by simp)
  unfold Rules.assignment
  refine .step rfl (.congr (.bind (hleft _ _) fun _ => .step rfl ?_) hiff.symm)
  exact .congr (.bind (hright _ _) fun _ => .ok trivial) (and_true _).to_iff

theorem withDefault (h : Sound (n + 1) (.node "AssignmentPattern" fields)) (place : Place) :
    GivesIff (rules.withDefault place (.node "AssignmentPattern" fields))
      (Tree.node "AssignmentPattern" fields).isPrintable := by
  obtain _ | ⟨hleft, _ | ⟨hright, _ | _⟩⟩ := h.parts rfl
  unfold Rules.withDefault
  refine .step rfl (.congr (.bind (hr.expression hleft _ _) fun _ => .step rfl
    (.last (hr.expression hright _ _))) ?_)
  simp [unprintedKinds]

theorem conditional (h : Sound (n + 1) (.node "ConditionalExpression" fields)) (place : Place) :
    GivesIff (rules.conditional place (.node "ConditionalExpression" fields))
      (Tree.node "ConditionalExpression" fields).isPrintable := by
  obtain _ | ⟨htest, _ | ⟨hconsequent, _ | ⟨halternate, _ | _⟩⟩⟩ := h.parts rfl
  unfold Rules.conditional
  refine .step rfl (.congr (.bind (hr.expression htest _ _) fun _ => .step rfl
    (.bind (hr.expression hconsequent _ _) fun _ => .step rfl
      (.last (hr.expression halternate _ _)))) ?_)
  simp [unprintedKinds]

theorem yield (h : Sound (n + 1) (.node "YieldExpression" fields)) (place : Place) :
    GivesIff (rules.yield place (.node "YieldExpression" fields))
      (Tree.node "YieldExpression" fields).isPrintable := by
  obtain _ | ⟨hargument, _ | ⟨hdelegate, _ | _⟩⟩ := h.parts rfl
  obtain ⟨delegate, rfl⟩ := hdelegate.flag
  unfold Rules.yield
  rcases hargument.maybe with rfl | hargument
  · exact .ok (by simp [unprintedKinds])
  · obtain ⟨kind, inner, rfl, -, -⟩ := hargument.node
    exact .congr (.last (hr.expression hargument _ _)) (by simp [unprintedKinds])

/-- An operand behind a word or dots. -/
theorem operand {kind : String} (h : Sound (n + 1) (.node kind fields))
    (hkind : kind ∈ ["SpreadElement", "RestElement", "AwaitExpression"]) (mark : String)
    (place : Place) (minimum : Nat) :
    GivesIff (do
      return mark ++ (← rules.expression place minimum (← (Tree.node kind fields).need "argument")))
      (Tree.node kind fields).isPrintable := by
  simp only [List.mem_cons, List.not_mem_nil, or_false] at hkind
  have hparts : Parts n [("argument", .one expressionKinds)] fields := by
    rcases hkind with rfl | rfl | rfl <;> exact h.parts rfl
  obtain _ | ⟨hargument, _ | _⟩ := hparts
  refine .step rfl (.congr (.last (hr.expression hargument _ _)) ?_)
  rcases hkind with rfl | rfl | rfl <;> simp [unprintedKinds]

omit hr in
theorem metaProperty (h : Sound (n + 1) (.node "MetaProperty" fields)) :
    GivesIff (Rules.metaProperty (.node "MetaProperty" fields))
      (Tree.node "MetaProperty" fields).isPrintable := by
  obtain _ | ⟨hfirst, _ | ⟨hsecond, _ | _⟩⟩ := h.parts rfl
  obtain ⟨first, rfl⟩ := hfirst.identifier
  obtain ⟨second, rfl⟩ := hsecond.identifier
  exact .ok (by simp [Grammar.identifier, unprintedKinds])

/-! ## All expressions -/

omit hr in
theorem need_operator {kind : String} (h : Sound (n + 1) (.node kind fields))
    (hkind : kind = "BinaryExpression" ∨ kind = "LogicalExpression") :
    ∃ operator, (Tree.node kind fields).need "operator" = .ok operator := by
  have hparts : Parts n [("operator", .text), ("left", .one expressionKinds),
      ("right", .one expressionKinds)] fields := by
    rcases hkind with rfl | rfl <;> exact h.parts rfl
  obtain _ | ⟨hoperator, _ | ⟨hleft, _ | ⟨hright, _ | _⟩⟩⟩ := hparts
  exact ⟨_, rfl⟩

omit hr in
/-- How tight an expression binds is always known. -/
theorem precedence_ok {kind : String} (h : Sound (n + 1) (.node kind fields)) :
    ∃ strength, precedence (.node kind fields) = .ok strength := by
  change ∃ strength, (if kind = "BinaryExpression" ∨ kind = "LogicalExpression" then _ else _ :
    Except Fault Nat) = .ok strength
  split
  · obtain ⟨operator, hoperator⟩ := need_operator h ‹_›
    rw [hoperator]
    exact ⟨_, rfl⟩
  · split
    · exact ⟨_, rfl⟩
    · exact ⟨_, rfl⟩

omit hr in
theorem isExposedIn_ok {kind : String} (h : Sound (n + 1) (.node kind fields)) (place : Place) :
    ∃ exposed, isExposedIn place (.node kind fields) = .ok exposed := by
  unfold isExposedIn
  split
  · rename_i hguard
    obtain rfl : kind = "BinaryExpression" := by
      simpa [isKind, kind?] using (Bool.and_eq_true_iff.1 hguard).2
    obtain ⟨operator, hoperator⟩ := need_operator h (.inl rfl)
    rw [hoperator]
    exact ⟨_, rfl⟩
  · exact ⟨_, rfl⟩

omit hr in
/-- An expression is printed if the form of its kind prints it. -/
theorem of_form {kind : String} {form : Place → Tree → Print} {P : Prop}
    (h : Sound (n + 1) (.node kind fields)) (hform : rules.expressionForm? kind = some form)
    (hgives : ∀ place, GivesIff (form place (.node kind fields)) P) (place : Place)
    (minimum : Nat) : GivesIff (rules.expressionAt place minimum (.node kind fields)) P := by
  obtain ⟨strength, hstrength⟩ := precedence_ok h
  obtain ⟨exposed, hexposed⟩ := isExposedIn_ok h place
  unfold Rules.expressionAt
  refine .step rfl ?_
  rw [hform]
  refine .step hstrength (.step hexposed (.ite (fun _ => .last (hgives _)) fun _ => hgives place))

omit hr in
/-- A literal is printed as it was spelled, and holds no nodes. -/
theorem literal_isPrintable (h : Sound (n + 1) (.node "Literal" fields)) :
    (Tree.node "Literal" fields).isPrintable = true := by
  rcases h.eitherParts rfl with (_ | ⟨hraw, _ | _⟩) | (_ | ⟨hraw, _ | ⟨hregex, _ | _⟩⟩)
  · obtain ⟨raw, rfl⟩ := hraw.text
    simp [unprintedKinds]
  · obtain ⟨raw, rfl⟩ := hraw.text
    obtain ⟨regex, rfl⟩ := hregex.record
    simp [unprintedKinds]

omit hr in
/-- A word that stands for itself holds no nodes. -/
theorem word_isPrintable {kind : String} (h : Sound (n + 1) (.node kind fields))
    (hkind : kind ∈ ["ThisExpression", "Super", "Import", "EmptyStatement", "DebuggerStatement"]) :
    (Tree.node kind fields).isPrintable = true := by
  simp only [List.mem_cons, List.not_mem_nil, or_false] at hkind
  have hparts : Parts n [] fields := by
    rcases hkind with rfl | rfl | rfl | rfl | rfl <;> exact h.parts rfl
  cases hparts
  rcases hkind with rfl | rfl | rfl | rfl | rfl <;> simp [unprintedKinds]

omit hr in
theorem identifier (h : Sound (n + 1) (.node "Identifier" fields)) :
    GivesIff ((Tree.node "Identifier" fields).needText "name")
      (Tree.node "Identifier" fields).isPrintable := by
  obtain _ | ⟨hname, _ | _⟩ := h.parts rfl
  obtain ⟨name, rfl⟩ := hname.text
  exact .ok (by simp [unprintedKinds])

/-- Every expression is printed, unless a node has no rule. -/
theorem expressionAt (h : Within (n + 1) (.one expressionKinds) t) (place : Place)
    (minimum : Nat) : GivesIff (rules.expressionAt place minimum t) t.isPrintable := by
  obtain ⟨kind, fields, rfl, hkind⟩ := isAny_iff.1 h.1
  have hsound := h.2
  simp only [expressionKinds, List.mem_cons, List.not_mem_nil, or_false] at hkind
  rcases hkind with rfl | rfl | rfl | rfl | rfl | rfl | rfl | rfl | rfl | rfl | rfl | rfl | rfl |
    rfl | rfl | rfl | rfl | rfl | rfl | rfl | rfl | rfl | rfl | rfl | rfl | rfl | rfl | rfl | rfl |
    rfl | rfl
  · exact of_form hsound rfl (fun _ => identifier hsound) place minimum
  · exact of_form hsound rfl (fun _ => .ok (literal_isPrintable hsound)) place minimum
  · exact of_form hsound rfl (fun _ => .ok (word_isPrintable hsound (by decide))) place minimum
  · exact of_form hsound rfl (fun _ => .ok (word_isPrintable hsound (by decide))) place minimum
  · exact of_form hsound rfl (fun _ => .ok (word_isPrintable hsound (by decide))) place minimum
  · exact of_form hsound rfl (hr.array hsound (.inl rfl)) place minimum
  · exact of_form hsound rfl (hr.array hsound (.inr rfl)) place minimum
  · exact of_form hsound rfl (hr.object hsound) place minimum
  · exact of_form hsound rfl (hr.objectPattern hsound) place minimum
  · exact of_form hsound rfl (hr.function hsound (.inr rfl)) place minimum
  · exact of_form hsound rfl (hr.arrow hsound) place minimum
  · exact of_form hsound rfl (hr.classText hsound (.inr rfl)) place minimum
  · exact of_form hsound rfl (hr.template hsound) place minimum
  · exact of_form hsound rfl (hr.taggedTemplate hsound) place minimum
  · exact of_form hsound rfl (hr.access hsound) place minimum
  · exact of_form hsound rfl (hr.call hsound) place minimum
  · exact of_form hsound rfl (hr.new hsound) place minimum
  · exact of_form hsound rfl (fun _ => metaProperty hsound) place minimum
  · exact of_form hsound rfl (hr.sequence hsound) place minimum
  · exact of_form hsound rfl (hr.unary hsound) place minimum
  · exact of_form hsound rfl (hr.update hsound) place minimum
  · exact of_form hsound rfl (fun place => hr.operand hsound (by decide) _ place _) place minimum
  · exact of_form hsound rfl (hr.yield hsound) place minimum
  · exact of_form hsound rfl (hr.binary hsound (.inl rfl)) place minimum
  · exact of_form hsound rfl (hr.binary hsound (.inr rfl)) place minimum
  · exact of_form hsound rfl (hr.assignment hsound) place minimum
  · exact of_form hsound rfl (hr.withDefault hsound) place minimum
  · exact of_form hsound rfl (hr.conditional hsound) place minimum
  · exact of_form hsound rfl (fun place => hr.operand hsound (by decide) _ place _) place minimum
  · exact of_form hsound rfl (fun place => hr.operand hsound (by decide) _ place _) place minimum
  -- The parameters of an arrow function that never comes.
  · exact ⟨by simp [unprintedKinds], by decide⟩

end Rules.Covers

end NameRecovery.Printer
