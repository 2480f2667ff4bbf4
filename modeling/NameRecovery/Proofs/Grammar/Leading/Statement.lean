import NameRecovery.Proofs.Grammar.Leading.Expression

/-!
# Programs read at the front of a text

A text that starts with a token is read as a program with a statement, and that program is
printed with a name first only if the name starts plainly.

* `statement_leads`, `item_leads` — statements at the front of a text;
* `rules_leading` — every rule reads the front like that, whatever its budget;
* `leads_of_parse` — so does a whole program.
-/

namespace NameRecovery.Grammar

open Source NameRecovery.Tree

variable {rules : Rules} {expr : Tree}

/-! ## Statements -/

theorem expressionNode_plain {fields : List (String × Tree)} (h : IsPlain expr) :
    IsPlain (.node "ExpressionStatement" (("expression", expr) :: fields)) :=
  plain_leading "expression" rfl h.opened

theorem expressionStatement_leads (h : rules.Leading) : Leads (expressionStatement rules) IsPlain := by
  unfold expressionStatement
  exact .first (expression_leads h) fun expr hexpr =>
    .skip fun _ => .pure (expressionNode_plain hexpr)

/-- A label is a name. -/
theorem labelNode_plain {name : String} (h : IsPlain expr) (hname : identifierName? expr = some name)
    (body : Tree) : IsPlain (.node "LabeledStatement" [("label", expr), ("body", body)]) := by
  obtain ⟨fields, rfl⟩ := eq_node_of_isKind (isKind_of_identifierName hname)
  have hopened := h.opened
  rw [isPlainlyOpened, opening?_identifier] at hopened
  refine ⟨rfl, ?_⟩
  rw [isPlainlyOpened, opening?_label "label" rfl]
  exact hopened

theorem labelledStatement_leads (h : rules.Leading) : Leads (labelledStatement rules) IsPlain := by
  unfold labelledStatement
  refine .first (expression_leads h) fun expr hexpr => .skip fun _ => ?_
  split
  · rename_i hname
    refine .skip fun _ => .skip fun _ => .when fun _ => .skip fun _ => .skip fun body => ?_
    exact .skip fun _ => .pure (labelNode_plain hexpr hname body)
  · exact .skip fun _ => .pure (expressionNode_plain hexpr)

theorem keywordStatement_leads (h : rules.Leading) (text : String) :
    Leads (keywordStatement rules text) IsPlain := by
  rcases keywordStatement_cases h.toFormed text with hkeyword | hexpression
  · exact (hkeyword.mono fun _ ht => plain_of_isA ht (by decide)).leads
  · rw [hexpression]
    exact expressionStatement_leads h

theorem functionDeclaration_plain (h : rules.Formed) :
    Yields (functionDeclaration rules false) IsPlain :=
  (functionDeclaration_yields h false).mono fun _ ht => plain_of_isA ht (by decide)

theorem statement_leads (h : rules.Leading) : Leads (statement rules) IsPlain := by
  unfold statement
  refine .seeing fun s hs => ?_
  split
  · have hblock := (blockStatement_yields h.toFormed).mono fun _ ht => plain_of_isA ht (by decide)
    exact hblock.leads.here hs
  · exact Leads.here (Yields.leads (.skip fun _ => .pure (plain_node (by decide)))) hs
  · refine Leads.here (.skip fun _ => .ite (fun _ => ?_) fun _ => labelledStatement_leads h) hs
    exact (functionDeclaration_plain h.toFormed).leads
  · exact (keywordStatement_leads h _).here hs
  · exact (unexpected_yields _).leads.here hs
  · exact (expressionStatement_leads h).here hs

instance : Stays Front letStartsDeclaration := by
  unfold letStartsDeclaration
  refine ⟨.skip fun token => ?_⟩
  split <;> exact Stays.makes

theorem item_leads (h : rules.Leading) : Leads (item rules) IsPlain := by
  unfold item
  have hkeyword : ∀ {p : Parse Tree}, Yields p (IsA keywordKinds) → Leads p IsPlain :=
    fun hp => (hp.mono fun _ ht => plain_of_isA ht (by decide)).leads
  have hlexical : Leads (lexicalDeclaration rules) IsPlain :=
    hkeyword ((lexicalDeclaration_yields h.toFormed).mono fun _ ht => ht.mono (by decide))
  refine .skip fun _ => .skip fun token => ?_
  split
  · exact .skip fun _ => .when fun _ => hkeyword (exportDeclaration_yields h.toFormed)
  · refine .skip fun _ => .ite (fun _ => expressionStatement_leads h) fun _ => .skip fun _ => ?_
    exact .when fun _ => hkeyword importDeclaration_yields
  · exact hlexical
  · exact (functionDeclaration_plain h.toFormed).leads
  · exact hkeyword ((classBy_yields h.toFormed (.inl rfl) false).mono fun _ ht =>
      ht.mono (by decide))
  · exact .skip fun _ => .ite (fun _ => hlexical) fun _ => h.leads_statement
  · exact h.leads_statement

/-! ## Programs -/

/-- Whatever their budget, the rules read the front of a text like that. -/
theorem rules_leading (budget : Nat) : (Grammar.rules budget).Leading := by
  induction budget with
  | zero =>
      exact
        { rules_formed 0 with
          leads_assignment := (complain_yields _).leads
          leads_power := (complain_yields _).leads
          leads_unary := (complain_yields _).leads
          leads_statement := (complain_yields _).leads
          leads_item := (complain_yields _).leads }
  | succ budget ih =>
      exact
        { rules_formed (budget + 1) with
          leads_assignment := assignment_leads ih
          leads_power := power_leads ih
          leads_unary := unary_leads ih
          leads_statement := statement_leads ih
          leads_item := item_leads ih }

theorem directive_leads (h : rules.Leading) : Leads (directive rules) fun r => IsPlain r.1 := by
  unfold directive
  refine .skip fun token => .first (expression_leads h) fun expr hexpr => .skip fun _ => ?_
  exact .ite (fun _ => .pure (expressionNode_plain hexpr)) fun _ => .pure (expressionNode_plain hexpr)

/-- Is there a first one, which starts plainly? -/
def HasPlain (ts : List Tree) : Prop :=
  ∃ first more, ts = first :: more ∧ IsPlain first

/-- Directives start plainly, and where there are none nothing has been consumed. -/
theorem directives_front (h : rules.Leading) {s s' : State} {head : List Tree} (hs : Front s)
    (hrun : directives rules s = .ok (head, s')) : HasPlain head ∨ head = [] ∧ Front s' := by
  unfold directives at hrun
  cases hbudget : rules.budget with
  | zero => rw [hbudget] at hrun; cases hrun
  | succ budget =>
      rw [hbudget] at hrun
      unfold directivesFrom at hrun
      obtain ⟨token, s₁, hlook, hrun⟩ := run_bind hrun
      cases hlook
      cases hlexeme : s.lookahead.lexeme with
      | string value isOctal =>
          rw [hlexeme] at hrun
          left
          refine Leads.first (directive_leads h) (fun r hr => ?_) s head s' hs hrun
          obtain ⟨statement, text⟩ := r
          have hcons : ∀ octal, Yields (do
              return statement :: (← directivesFrom rules budget octal)) HasPlain :=
            fun octal => .skip fun rest => .pure ⟨statement, rest, rfl, hr⟩
          dsimp only
          split
          · exact .pure ⟨statement, [], rfl, hr⟩
          · exact .skip fun _ => .skip fun c => .when fun _ => hcons _
          · exact hcons _
      | _ =>
          rw [hlexeme] at hrun
          cases hrun
          exact .inr ⟨rfl, hs⟩

/-- A list read at the front starts with what its first step gives. -/
theorem collect_leads {step : Parse (Option Tree)}
    (h : Leads step fun r => ∃ t, r = some t ∧ IsPlain t) (budget : Nat) :
    Leads (collect step budget) HasPlain := by
  cases budget with
  | zero => exact (complain_yields _).leads
  | succ budget =>
      unfold collect
      refine .first h fun r hr => ?_
      obtain ⟨t, rfl, ht⟩ := hr
      exact .skip fun rest => .pure ⟨t, rest, rfl, ht⟩

theorem programNode_plain {goal : String} {body : List Tree} (h : HasPlain body) :
    IsPlain (.node "Program" [("sourceType", .text goal), ("body", .list body)]) := by
  obtain ⟨first, more, rfl, hfirst⟩ := h
  exact plain_leading_list "body" rfl rfl (hfirst.startsPlain more)

/-- A program with a statement, if the text starts with a token. -/
theorem program_front (h : rules.Leading) (goal : Goal) {s : State} (hfront : IsFront s.cursor.rest) :
    LeadsAt s (program goal rules) fun t =>
      IsPlain t ∧ ∃ first more, t.get "body" = .list (first :: more) := by
  intro t s' hrun
  unfold program at hrun
  obtain ⟨token, s₁, hnext, hrun⟩ := run_bind hrun
  have hs₁ := (front_of_nextToken hfront hnext).2
  obtain ⟨_, s₂, hs₂, hrun⟩ := run_skip hs₁ hrun
  obtain ⟨s₃, hs₃, hrun⟩ := run_when hs₂ hrun
  obtain ⟨head, s₄, hhead, hrun⟩ := run_bind hrun
  obtain ⟨body, s₅, hbody, hrun⟩ := run_bind hrun
  have hall : HasPlain (head ++ body) := by
    rcases directives_front h hs₃ hhead with ⟨first, more, rfl, hfirst⟩ | ⟨rfl, hs₄⟩
    · exact ⟨first, more ++ body, rfl, hfirst⟩
    · refine collect_leads (.read (fun _ => rfl) fun s hs => ?_) rules.budget s₄ body s₅ hs₄ hbody
      rw [if_neg (by simp [hs.solid.not_end])]
      exact Leads.here (.first h.leads_item fun t ht => .pure ⟨t, rfl, ht⟩) hs
  cases hrun
  refine ⟨programNode_plain hall, ?_⟩
  obtain ⟨first, more, hlist, -⟩ := hall
  rw [hlist]
  exact ⟨first, more, rfl⟩

/-- A text that starts with a token is read as a program with a statement; a name it is
printed with first starts plainly. -/
theorem leads_of_parse {goal : Goal} {text : String} {t : Tree} (hfront : IsFront text.toList)
    (h : parse goal text = .ok t) :
    t.isPlainlyOpened = true ∧ ∃ first more, t.get "body" = .list (first :: more) := by
  unfold parse parseChars at h
  split at h
  · rename_i tree state hrun
    obtain ⟨hplain, hbody⟩ := program_front (rules_leading _) goal (s := State.start text.toList)
      hfront tree state hrun
    rw [← Except.ok.inj h]
    exact ⟨hplain.opened, hbody⟩
  · cases h

end NameRecovery.Grammar
