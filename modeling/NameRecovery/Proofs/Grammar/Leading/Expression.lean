import NameRecovery.Proofs.Grammar.Leading.Basic

/-!
# Expressions at the front of a text

What an expression at the front of a text is read as starts plainly, rule by rule in the
order of the grammar: each rule reads its first operand at the front, or one of the tokens
that have no name in front of them.

* `Rules.Leading` — what is read at the front by the rules that others refer to;
* `group_leads`, `primary_leads` — parentheses and names;
* `callExpression_leads`, `unary_leads`, `binary_leads` — operands behind the front;
* `coverParameters_plain` — the parameters of an arrow function are those of its expression;
* `assignment_leads`, `expression_leads` — whole expressions.
-/

namespace NameRecovery.Grammar

open Source NameRecovery.Tree

/-- Is what the rules read at the front of a text printed with a name that starts plainly,
if with a name? -/
structure Rules.Leading (rules : Rules) : Prop extends Rules.Formed rules where
  /-- Expressions without commas are. -/
  leads_assignment : Leads rules.assignment IsPlain
  /-- Powers are. -/
  leads_power : Leads rules.power IsPlain
  /-- Expressions with an operator in front are. -/
  leads_unary : Leads rules.unary IsPlain
  /-- Statements are. -/
  leads_statement : Leads rules.statement IsPlain
  /-- Statements and declarations are. -/
  leads_item : Leads rules.item IsPlain

variable {rules : Rules}

/-! ## Words -/

theorem isPlainStart_of_isLower {name : String}
    (h : (name.toList.head?.any fun c => c.isLower) = true) : isPlainStart name = true := by
  unfold isPlainStart
  cases hname : name.toList with
  | nil => rw [hname] at h; cases h
  | cons c cs =>
      have hlower : c.isLower = true := by simpa [hname] using h
      have hplain : c ≠ '\\' := by rintro rfl; cases hlower
      simp [isNamePart, isNameStart_isLower hlower, hplain]

/-- A word at the front starts plainly. -/
theorem anyWord_leads :
    Leads anyWord fun t => ∃ name, t = identifier name ∧ isPlainStart name = true := by
  unfold anyWord
  refine .token fun s hs => .ite (fun hword => .pure ⟨_, rfl, ?_⟩) fun _ => unexpected_yields _
  unfold isWord at hword
  unfold Token.spelling
  split at hword
  · rename_i text hlexeme
    rw [hlexeme]
    exact hs.solid.name text (.inl hlexeme)
  · rename_i text hlexeme
    rw [hlexeme]
    exact hs.solid.name text (.inr (.inl hlexeme))
  · rename_i text hlexeme
    rw [hlexeme]
    exact hs.solid.name text (.inr (.inr hlexeme))
  · rename_i hlexeme
    rw [hlexeme]
    change isPlainStart "null" = true
    exact isPlainStart_of_isLower (by decide)
  · cases hword

/-! ## Parentheses -/

section Groups

variable {expr : Tree} {params : List Tree}

theorem arrowParameters_plain (h : StartsPlain params) : IsPlain (arrowParameters false params) :=
  plain_leading_list "params" rfl rfl h

theorem asyncParameters_plain (params : List Tree) : IsPlain (arrowParameters true params) := by
  refine ⟨rfl, ?_⟩
  rw [isPlainlyOpened, arrowParameters, opening?_other (by decide) rfl rfl]
  rfl

theorem restParameter_plain (rules : Rules) : Yields (restParameter rules) fun r => IsPlain r.1 := by
  unfold restParameter
  refine .skip fun _ => .skip fun r => .skip fun _ => .when fun _ => ?_
  exact .skip fun _ => .when fun _ => .pure (plain_node (by decide))

/-- Nothing that is read later comes before the first expression. -/
theorem groupTail_plain (budget : Nat) {done : List Tree} (hexpr : IsPlain expr) :
    Yields (groupTail rules budget (expr :: done)) fun r => StartsPlain r.1 := by
  induction budget generalizing done with
  | zero => exact complain_yields _
  | succ budget ih =>
      unfold groupTail
      have hdone : StartsPlain (expr :: done) := hexpr.startsPlain done
      refine .skip fun _ => .ite (fun _ => .pure hdone) fun _ => .skip fun _ => .skip fun _ => ?_
      refine .ite (fun _ => .pure hdone) fun _ => .skip fun _ => .ite (fun _ => ?_) fun _ => ?_
      · refine .skip fun _ => .whenWith fun _ => .skip fun r => .skip fun _ => .skip fun _ => ?_
        exact .when fun _ => .skip fun _ => .pure (hexpr.startsPlain _)
      · exact .skip fun _ => ih

theorem groupEnd_plain (hexpr : IsPlain expr) {parts : List Tree} (hparts : StartsPlain parts) :
    Yields (groupEnd expr parts) IsPlain := by
  unfold groupEnd
  refine .skip fun _ => .skip fun _ => .ite (fun _ => .ite (fun _ => ?_) fun _ => ?_) fun _ => ?_
  · exact .skip fun _ => .pure (arrowParameters_plain (hexpr.startsPlain []))
  · refine .skip fun _ => .whenWith fun _ => .skip fun _ => .pure ?_
    exact arrowParameters_plain hparts.map_asPattern
  · exact .skip fun _ => .pure hexpr

theorem sequence_plain {exprs : List Tree} (h : StartsPlain exprs) :
    IsPlain (.node "SequenceExpression" [("expressions", .list exprs)]) :=
  plain_leading_list "expressions" rfl rfl h

/-- Behind the parenthesis stands the front of a text again. -/
theorem group_leads (h : rules.Leading) : Leads (group rules) IsPlain := by
  unfold group
  refine .skip fun _ => .accept ?_ (.skip fun _ => ?_)
  · exact .skip fun _ => .when fun _ => .pure (arrowParameters_plain rfl)
  refine .ite (fun _ => Yields.leads ?_) fun _ => .skip fun _ => ?_
  · refine .bind (restParameter_plain rules) fun r hr => .skip fun _ => .skip fun _ => ?_
    exact .when fun _ => .pure (arrowParameters_plain (hr.startsPlain []))
  refine .first h.leads_assignment.inherited fun expr hexpr => .skip fun _ =>
    .ite (fun _ => ?_) fun _ => ?_
  · refine .skip fun _ => .bind (groupTail_plain _ hexpr) fun r hr => .ite (fun _ => ?_) fun _ => ?_
    · exact .pure (arrowParameters_plain hr.map_asPattern)
    · exact groupEnd_plain (sequence_plain hr) hr
  · refine .ite (fun hkind => ?_) fun _ => groupEnd_plain hexpr (hexpr.startsPlain [])
    split
    · rename_i parts hparts
      obtain ⟨fields, rfl⟩ := eq_node_of_isKind hkind
      exact groupEnd_plain hexpr (hexpr.leading_list "expressions" rfl hparts)
    · exact groupEnd_plain hexpr (hexpr.startsPlain [])

end Groups

/-! ## Primary expressions -/

theorem arrayLiteral_plain (rules : Rules) : Yields (arrayLiteral rules) IsPlain := by
  unfold arrayLiteral
  exact .skip fun _ => .skip fun _ => .skip fun _ => .pure (plain_node (by decide))

theorem objectLiteral_plain (rules : Rules) : Yields (objectLiteral rules) IsPlain := by
  unfold objectLiteral
  exact .skip fun _ => .skip fun _ => .skip fun _ => .pure (plain_node (by decide))

theorem functionExpression_plain (h : rules.Formed) : Yields (functionExpression rules) IsPlain :=
  (functionExpression_yields h).mono fun _ ht => plain_of_isA ht (by decide)

theorem keywordExpression_leads (h : rules.Formed) {text : String} (htext : isPlainStart text = true) :
    Leads (keywordExpression rules text) IsPlain := by
  unfold keywordExpression
  refine .skip fun c => .ite (fun _ => ?_) fun _ => .ite (fun hlet => Yields.leads ?_) fun _ =>
    Yields.leads (.skip fun _ => ?_)
  · refine anyWord_leads.mono ?_
    rintro _ ⟨name, rfl, hname⟩
    exact plain_identifier hname
  · obtain rfl := beq_iff_eq.1 (Bool.and_eq_true_iff.1 hlet).1
    exact .skip fun _ => .pure (plain_identifier htext)
  refine .ite (fun _ => ?_) fun _ => .ite (fun _ => ?_) fun _ => .ite (fun _ => ?_) fun _ => ?_
  · exact functionExpression_plain h
  · exact .skip fun _ => .pure (plain_node (by decide))
  · exact (classBy_yields h (.inr rfl) true).mono fun _ ht => plain_of_isA ht (by decide)
  · refine .skip fun _ => .ite (fun _ => ?_) fun _ => .skip fun token => unexpected_yields token
    exact .skip fun _ => .pure (plain_node (by decide))

theorem primary_leads (h : rules.Leading) : Leads (primary rules) IsPlain := by
  unfold primary
  refine .seeing fun s hs => ?_
  have hliteral : ∀ p : Parse Token, Yields (do
      plainValue
      let _ ← p
      return literal s.lookahead) IsPlain := fun p =>
    .skip fun _ => .skip fun _ => .pure (plain_node (by decide))
  split
  · rename_i text hlexeme
    have htext : isPlainStart text = true := hs.solid.name text (.inl hlexeme)
    refine Leads.here (Yields.leads ?_) hs
    refine .skip fun c => .when fun _ => .skip fun _ => .ite (fun _ => ?_) fun _ => ?_
    · exact functionExpression_plain h.toFormed
    · exact .skip fun _ => .pure (plain_identifier htext)
  · exact Leads.here (Yields.leads (.skip fun _ => hliteral _)) hs
  · exact Leads.here (Yields.leads (.skip fun _ => hliteral _)) hs
  · exact (hliteral _).leads.here hs
  · exact (hliteral _).leads.here hs
  · have htemplate := (template_yields h.toFormed).mono fun _ ht => plain_of_isA ht (by decide)
    exact htemplate.leads.here hs
  · exact Leads.here (.skip fun _ => (group_leads h).inherited) hs
  · exact (arrayLiteral_plain rules).inherited.leads.here hs
  · exact (objectLiteral_plain rules).inherited.leads.here hs
  iterate 2
    · refine Leads.here (Yields.leads (.skip fun _ => .skip fun regex => ?_)) hs
      split
      · exact .pure (plain_node (by decide))
      · exact unexpected_yields regex
  · rename_i text hlexeme
    exact (keywordExpression_leads h.toFormed (hs.solid.name text (.inr (.inl hlexeme)))).here hs
  · exact Leads.here (Yields.leads (.skip fun token => unexpected_yields token)) hs

/-! ## Members and calls -/

section Calls

variable {expr : Tree}

theorem memberNode_plain (h : IsPlain expr) (property : Tree) (computed : Bool) :
    IsPlain (memberNode expr property computed) :=
  plain_leading "object" rfl h.opened

theorem access_plain (h : IsPlain expr) : Yields (access? rules expr) (OfSome IsPlain) := by
  unfold access?
  refine .skip fun token => ?_
  split
  · exact .skip fun _ => .skip fun _ => .skip fun property =>
      .pure (ofSome_some (memberNode_plain h property false))
  · exact .skip fun _ => .skip fun _ => .skip fun property => .skip fun _ =>
      .pure (ofSome_some (memberNode_plain h property true))
  · exact .skip fun quasi => .pure (ofSome_some (plain_leading "tag" rfl h.opened))
  · exact .pure (ofSome_none _)

theorem newExpression_leads (rules : Rules) : Leads (newExpression rules) IsPlain := by
  unfold newExpression
  refine .first anyWord_leads fun word hword => .skip fun _ => .ite (fun _ => ?_) fun _ => ?_
  · obtain ⟨name, rfl, hname⟩ := hword
    refine .skip fun token => .skip fun _ => .ite (fun _ => ?_) fun _ => unexpected_yields token
    refine .skip fun property => .pure ⟨rfl, ?_⟩
    rw [isPlainlyOpened, opening?_label "meta" rfl]
    exact hname
  · refine .skip fun _ => .ite (fun _ => .skip fun token => unexpected_yields token) fun _ => ?_
    refine .skip fun callee => .skip fun _ => .branch (fun _ => True) (fun _ => ?_) (fun _ => ?_) ?_
    · exact fun _ _ _ _ => trivial
    · exact fun _ _ _ _ => trivial
    · exact fun args _ => .skip fun _ => .pure (plain_node (by decide))

theorem operand_leads (h : rules.Leading) : Leads (operand rules) IsPlain := by
  unfold operand
  refine .skip fun _ => Leads.inherited ?_
  exact .ite (fun _ => newExpression_leads rules) fun _ => primary_leads h

theorem superAccess_plain (brackets : List String) : Yields (superAccess brackets) IsPlain := by
  unfold superAccess
  exact .skip fun _ => .skip fun _ => .whenWith fun _ => .pure (plain_node (by decide))

theorem call_plain (h : IsPlain expr) (maybeArrow : Bool) :
    Yields (call rules expr maybeArrow) IsPlain := by
  unfold call
  refine .skip fun _ => .branch (fun _ => True) (fun _ _ _ _ _ => trivial)
    (fun _ _ _ _ _ => trivial) fun args _ => ?_
  refine .when fun _ => .skip fun _ => .ite (fun _ => ?_) fun _ => ?_
  · exact .pure (asyncParameters_plain _)
  · exact .pure (plain_leading "callee" rfl h.opened)

theorem callChain_plain (start : Token) (budget : Nat) (h : IsPlain expr) :
    Yields (callChain rules start budget expr) IsPlain := by
  induction budget generalizing expr with
  | zero => exact complain_yields _
  | succ budget ih =>
      unfold callChain
      refine .skip fun _ => .ite (fun _ => .skip fun _ => ?_) fun _ => ?_
      · exact .bind (call_plain h _) fun called hcalled => ih hcalled
      · refine .bind (access_plain h) fun found hfound => ?_
        cases found with
        | none => exact .pure h
        | some accessed => exact ih (hfound accessed rfl)

theorem callExpression_leads (h : rules.Leading) : Leads (callExpression rules) IsPlain := by
  unfold callExpression
  have hrest : ∀ start allowIn expr, IsPlain expr → Yields (do
      let expr ← callChain rules start rules.budget expr
      changeContext fun c => { c with allowIn }
      return expr) IsPlain := fun start allowIn expr hexpr =>
    .bind (callChain_plain start _ hexpr) fun expr hexpr => .skip fun _ => .pure hexpr
  refine .skip fun start => .skip fun c => .skip fun _ => .skip fun _ => .ite (fun _ => ?_) fun _ => ?_
  · exact .first (superAccess_plain _).leads fun expr hexpr => hrest start _ expr hexpr
  · exact .first (operand_leads h) fun expr hexpr => hrest start _ expr hexpr

end Calls

/-! ## Operators -/

section Operators

variable {expr : Tree}

/-- Behind two minus signs the operand starts plainly, behind other operators no name does. -/
theorem updateNode_plain {operator : String} (h : operator = "--" → IsPlain expr) :
    IsPlain (updateNode operator expr true) := by
  have hvalue : (Tree.node "UpdateExpression" [("operator", .text operator), ("argument", expr),
      ("prefix", .bool true)]).has "prefix" = true := rfl
  by_cases hminus : operator = "--"
  · subst hminus
    exact plain_leading "argument" rfl (h rfl).opened
  · refine ⟨rfl, ?_⟩
    rw [isPlainlyOpened, updateNode, opening?_other (by decide) rfl]
    · rfl
    · unfold leadingField?
      simp [hvalue, Tree.get, Tree.get?, Tree.text?, hminus]

theorem update_leads (h : rules.Leading) : Leads (update rules) IsPlain := by
  unfold update
  refine .read (fun _ => rfl) fun s hs => ?_
  split
  · rename_i hsees
    refine .next hs (fun _ => ?_) fun hother => ?_
    · refine .first h.leads_unary.inherited fun expr hexpr => .skip fun _ => .skip fun _ => ?_
      exact .pure (updateNode_plain fun _ => hexpr)
    · refine .skip fun expr => .skip fun _ => .skip fun _ => .pure (updateNode_plain fun hminus => ?_)
      simp only [isOpening, Bool.or_eq_false_iff] at hother
      simp only [List.any_cons, List.any_nil, hother.2, Bool.or_false] at hsees
      exact absurd ((spelling_of_isMark hsees).symm.trans hminus) (by decide)
  · refine Leads.here (.first (callExpression_leads h).inherited fun expr hexpr => ?_) hs
    refine .skip fun _ => .skip fun _ => .ite (fun _ => ?_) fun _ => .pure hexpr
    refine .skip fun _ => .skip fun _ => .skip fun token => .pure ?_
    exact plain_leading "argument" rfl hexpr.opened

theorem unaryNode_plain {operator : String} (h : operator = "-" → IsPlain expr) :
    IsPlain (.node "UnaryExpression"
      [("operator", .text operator), ("argument", expr), ("prefix", .bool true)]) := by
  by_cases hminus : operator = "-"
  · subst hminus
    exact plain_leading "argument" rfl (h rfl).opened
  · refine ⟨rfl, ?_⟩
    rw [isPlainlyOpened, opening?_other (by decide) rfl]
    · rfl
    · unfold leadingField?
      simp [Tree.get, Tree.get?, Tree.text?, hminus]

theorem isMark_of_isUnaryOperator {token : Token} (h : isUnaryOperator token = true)
    (hminus : token.spelling = "-") : token.isMark "-" = true := by
  have hother : ∀ text : String, text ≠ "-" → token.spelling ≠ text := fun text hne heq =>
    hne (heq.symm.trans hminus)
  simp only [isUnaryOperator, List.any_cons, List.any_nil, Bool.or_false, Bool.or_eq_true] at h
  rcases h with (h | h | h | h) | h | h | h
  · exact absurd (spelling_of_isMark h) (hother _ (by decide))
  · exact h
  · exact absurd (spelling_of_isMark h) (hother _ (by decide))
  · exact absurd (spelling_of_isMark h) (hother _ (by decide))
  · exact absurd (spelling_of_isKeyword h) (hother _ (by decide))
  · exact absurd (spelling_of_isKeyword h) (hother _ (by decide))
  · exact absurd (spelling_of_isKeyword h) (hother _ (by decide))

theorem unary_leads (h : rules.Leading) : Leads (unary rules) IsPlain := by
  unfold unary
  refine .seeing fun s hs => ?_
  split
  · rename_i hoperator
    refine .next hs (fun _ => ?_) fun hother => ?_
    · refine .first h.leads_unary.inherited fun argument hargument => .skip fun _ => ?_
      exact .when fun _ => .skip fun _ => .pure (unaryNode_plain fun _ => hargument)
    · refine .skip fun argument => .skip fun _ => .when fun _ => .skip fun _ => .pure ?_
      refine unaryNode_plain fun hminus => ?_
      rw [isOpening, isMark_of_isUnaryOperator hoperator hminus, Bool.or_true] at hother
      cases hother
  · refine Leads.here (.skip fun _ => .ite (fun _ => Yields.leads ?_) fun _ => update_leads h) hs
    exact .skip fun _ => .skip fun _ => .pure (plain_node (by decide))

theorem binaryNode_plain (operator : String) (h : IsPlain expr) (right : Tree) :
    IsPlain (binaryNode operator expr right) := by
  unfold binaryNode
  split <;> exact plain_leading "left" rfl h.opened

theorem power_leads (h : rules.Leading) : Leads (power rules) IsPlain := by
  unfold power
  refine .first h.leads_unary.inherited fun base hbase => .skip fun _ => .ite (fun _ => ?_) fun _ => ?_
  · exact .skip fun _ => .skip fun _ => .skip fun exponent => .pure (binaryNode_plain _ hbase _)
  · exact .pure hbase

/-- The operand that was read first, of those that wait and the one read last. -/
def leftmost : List Waiting → Tree → Tree
  | [], right => right
  | w :: rest, _ => leftmost rest w.left

theorem leftmost_plain {waiting : List Waiting} (h : IsPlain (leftmost waiting expr))
    (operator : String) (right : Tree) :
    IsPlain (leftmost waiting (binaryNode operator expr right)) := by
  cases waiting with
  | nil => exact binaryNode_plain operator h right
  | cons => exact h

/-- Joining operands keeps which of them is read first. -/
theorem joinWaiting_plain (strength : Nat) {waiting : List Waiting} {right : Tree}
    (h : IsPlain (leftmost waiting right)) :
    IsPlain (leftmost (joinWaiting strength waiting right).1
      (joinWaiting strength waiting right).2) := by
  induction waiting generalizing right with
  | nil => exact h
  | cons w rest ih =>
      unfold joinWaiting
      have hleft : IsPlain (leftmost rest w.left) := h
      split
      · exact ih (leftmost_plain hleft _ _)
      · exact h

theorem joinWaiting_zero (waiting : List Waiting) (right : Tree) :
    (joinWaiting 0 waiting right).1 = [] := by
  induction waiting generalizing right with
  | nil => rfl
  | cons w rest ih =>
      rw [joinWaiting, if_pos (Nat.zero_le _)]
      exact ih _

theorem binaryTail_plain (budget : Nat) {waiting : List Waiting} {right : Tree}
    (h : IsPlain (leftmost waiting right)) :
    Yields (binaryTail rules budget waiting right) IsPlain := by
  induction budget generalizing waiting right with
  | zero => exact complain_yields _
  | succ budget ih =>
      unfold binaryTail
      refine .skip fun token => .skip fun c => .ite (fun _ => .pure ?_) fun _ => ?_
      · have hjoined := joinWaiting_plain 0 h
        rw [joinWaiting_zero] at hjoined
        exact hjoined
      · exact .skip fun _ => .skip fun _ => .skip fun next => ih (joinWaiting_plain _ h)

theorem binary_leads (h : rules.Leading) : Leads (binary rules) IsPlain := by
  unfold binary
  exact .first h.leads_power.inherited fun first hfirst => binaryTail_plain _ hfirst

theorem conditional_leads (h : rules.Leading) : Leads (conditional rules) IsPlain := by
  unfold conditional
  refine .first (binary_leads h).inherited fun test htest => .skip fun _ => ?_
  refine .ite (fun _ => .skip fun _ => .skip fun _ => ?_) fun _ => .pure htest
  refine .skip fun _ => .skip fun _ => .skip fun _ => .skip fun _ => .skip fun _ => .pure ?_
  exact plain_leading "test" rfl htest.opened

end Operators

/-! ## Assignments -/

section Assignments

variable {expr : Tree}

theorem yieldExpression_plain (rules : Rules) : Yields (yieldExpression rules) IsPlain := by
  unfold yieldExpression
  extract_lets node
  have hnode : ∀ argument delegate, IsPlain (node argument delegate) :=
    fun _ _ => plain_node (by decide)
  refine .skip fun _ => .skip fun _ => .ite (fun _ => .pure (hnode _ _)) fun _ => ?_
  refine .skip fun _ => .skip fun _ => .skip fun delegate => .skip fun _ => ?_
  refine .branch (fun _ => True) (fun _ _ _ _ _ => trivial) (fun _ _ _ _ _ => trivial) ?_
  exact fun argument _ => .skip fun _ => .pure (hnode _ _)

/-- The parameter an expression stands for is printed with the same name first. -/
theorem coverParameter_plain (isAsync : Bool) (param : Tree) :
    Yields (coverParameter isAsync param) fun t =>
      t.isNull = param.isNull ∧ t.opening? = param.opening? := by
  unfold coverParameter
  refine .ite (fun hkind => ?_) fun _ => .ite (fun _ => ?_) fun _ => .pure ⟨rfl, rfl⟩
  · obtain ⟨fields, rfl⟩ := eq_node_of_isKind hkind
    unfold yieldDefault
    refine .ite (fun _ => .whenWith fun _ => .pure ⟨rfl, ?_⟩) fun _ => .pure ⟨rfl, rfl⟩
    rw [opening?_leading "left" rfl, opening?_leading "left" rfl]
    rfl
  · exact .skip fun token => unexpected_yields token

theorem openingFirst_replace {t t' : Tree} (hnull : t'.isNull = t.isNull)
    (hopening : t'.opening? = t.opening?) (before rest : List Tree) :
    openingFirst (before ++ t' :: rest) = openingFirst (before ++ t :: rest) := by
  induction before with
  | nil => rw [List.nil_append, List.nil_append, openingFirst, openingFirst, hnull, hopening]
  | cons t before ih =>
      rw [List.cons_append, List.cons_append, openingFirst, openingFirst, ih]

/-- A loop that adds a parameter for each expression keeps what the first one starts with. -/
theorem forIn_plain {body : Tree → Parameters → Parse (ForInStep Parameters)}
    (hbody : ∀ expr ps, Yields (body expr ps) fun step => ∃ param ps', step = .yield ps' ∧
      ps'.params = ps.params ++ [param] ∧ param.isNull = expr.isNull ∧
      param.opening? = expr.opening?)
    {exprs : List Tree} {ps : Parameters} (h : StartsPlain (ps.params ++ exprs)) :
    Yields (ForIn.forIn exprs ps body) fun ps => StartsPlain ps.params := by
  induction exprs generalizing ps with
  | nil =>
      rw [List.forIn_nil]
      rw [List.append_nil] at h
      exact .pure h
  | cons expr rest ih =>
      rw [List.forIn_cons]
      refine .bind (hbody expr ps) fun step hstep => ?_
      obtain ⟨param, ps', rfl, hparams, hnull, hopening⟩ := hstep
      refine ih ?_
      rw [hparams, List.append_assoc, List.singleton_append, StartsPlain,
        openingFirst_replace hnull hopening]
      exact h

/-- The parameters of an arrow function start with those of the expression before it. -/
theorem coverParameters_plain (h : IsPlain expr) :
    Yields (coverParameters expr) (OfSome fun ps =>
      (expr.isKind "ArrowParameterPlaceHolder" && expr.has "async") = true ∨
        StartsPlain ps.params) := by
  unfold coverParameters
  dsimp only
  split
  · exact .pure (ofSome_none _)
  · rename_i exprs isAsync hcover
    have hexprs : (expr.isKind "ArrowParameterPlaceHolder" && expr.has "async") = true ∨
        StartsPlain exprs := by
      split at hcover
      · cases hcover
        exact .inr (h.startsPlain [])
      split at hcover
      · rename_i hkind
        obtain ⟨fields, rfl⟩ := eq_node_of_isKind hkind
        cases hasync : (Tree.node "ArrowParameterPlaceHolder" fields).has "async" with
        | true => exact .inl rfl
        | false =>
            split at hcover
            · rename_i params hget
              cases hcover
              exact .inr (h.leading_list "params" (by simp [leadingField?, hasync]) hget)
            · cases hcover
      · cases hcover
    rcases hexprs with hasync | hexprs
    · refine .skip fun ps => .skip fun c => .whenWith fun _ => .when fun _ => ?_
      exact .pure (ofSome_some (.inl hasync))
    · refine .bind (forIn_plain (fun expr ps => ?_) hexprs) fun ps hps => ?_
      · refine .bind (coverParameter_plain isAsync expr) fun param hparam => .skip fun c => .pure ?_
        refine ⟨param, _, rfl, ?_, hparam⟩
        exact congrArg (· ++ [param])
          (Parameters.foldl_admit_params c.strict (fun _ => none) id (patternNames param) ps)
      · refine .skip fun c => .whenWith fun _ => .when fun _ => ?_
        exact .pure (ofSome_some (.inr hps))

theorem arrowFunction_plain (rules : Rules) {ps : Parameters} {isAsync : Bool}
    (h : isAsync = true ∨ StartsPlain ps.params) :
    Yields (arrowFunction rules ps isAsync) IsPlain := by
  have hnode : ∀ body, IsPlain (.node "ArrowFunctionExpression"
      [("params", .list ps.params), ("body", body), ("generator", .bool false),
        ("async", .bool isAsync), ("expression", .bool !body.isKind "BlockStatement")]) := by
    intro body
    cases isAsync with
    | true =>
        refine ⟨rfl, ?_⟩
        rw [isPlainlyOpened, opening?_other (by decide) rfl rfl]
        rfl
    | false => exact plain_leading_list "params" rfl rfl (h.resolve_left (by decide))
  unfold arrowFunction
  refine .skip fun _ => .whenWith fun _ => .skip fun _ => .skip fun before => .skip fun _ => ?_
  refine .skip fun _ => .skip fun _ => ?_
  extract_lets rest
  have hrest : ∀ body, Yields (rest body) IsPlain := fun body =>
    .skip fun _ => .skip fun _ => .pure (hnode body)
  refine .ite (fun _ => .skip fun c => .skip fun _ => ?_) fun _ => ?_
  · exact .skip fun body => .skip fun _ => .skip fun body => hrest body
  · exact .skip fun body => hrest body

theorem assignTo_plain (rules : Rules) (start : Token) (h : IsPlain expr) :
    Yields (assignTo rules start expr) IsPlain := by
  unfold assignTo
  refine .skip fun c => .when fun _ => ?_
  extract_lets rest
  have hrest : ∀ u, Yields (rest u) IsPlain := by
    intro _
    refine .skip fun plain => .when fun _ => .skip fun operator => .skip fun right => ?_
    have hleft : IsPlain (if plain then asPattern expr else expr) := by
      split
      · exact h.asPattern
      · exact h
    exact .skip fun _ => .pure (plain_leading "left" rfl hleft.opened)
  refine .ite (fun _ => ?_) fun _ => hrest ()
  split
  · exact .when fun _ => .when hrest
  · exact hrest ()

theorem asyncParameter_plain (rules : Rules) (start : Token) :
    Yields (asyncParameter? rules start) (OfSome IsPlain) := by
  unfold asyncParameter?
  refine .skip fun next => .ite (fun _ => ?_) fun _ => .pure (ofSome_none _)
  exact .skip fun param => .pure (ofSome_some (asyncParameters_plain _))

/-- An expression without commas at the front of a text. -/
theorem assignment_leads (h : rules.Leading) : Leads (assignment rules) IsPlain := by
  unfold assignment
  refine .skip fun _ => .skip fun _ =>
    .ite (fun _ => (yieldExpression_plain rules).leads) fun _ => ?_
  refine .skip fun start => .first (conditional_leads h) fun expr hexpr => ?_
  refine .bind (asyncParameter_plain rules start) fun param hparam => .skip fun _ => ?_
  have htarget : IsPlain (param.getD expr) := by
    cases param with
    | none => exact hexpr
    | some param => exact hparam param rfl
  refine .ite (fun _ => .skip fun _ => ?_) fun _ => .skip fun _ => .ite (fun _ => ?_) fun _ => ?_
  · refine .bind (coverParameters_plain htarget) fun ps hps => ?_
    cases ps with
    | some ps => exact arrowFunction_plain rules (hps ps rfl)
    | none => exact .pure htarget
  · exact assignTo_plain rules start htarget
  · exact .pure htarget

/-- An expression at the front of a text. -/
theorem expression_leads (h : rules.Leading) : Leads (expression rules) IsPlain := by
  unfold expression
  refine .first h.leads_assignment.isolated fun first hfirst => .skip fun _ => .ite (fun _ => ?_) ?_
  · exact .skip fun rest => .pure (sequence_plain (hfirst.startsPlain rest))
  · exact fun _ => .pure hfirst

end Assignments

end NameRecovery.Grammar
