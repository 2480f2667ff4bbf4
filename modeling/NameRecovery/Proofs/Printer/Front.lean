import NameRecovery.Proofs.Grammar.Spelling
import NameRecovery.Proofs.Printer.DefaultExport
import NameRecovery.Proofs.Printer.Opening

/-!
# Programs are printed with a token first

A program with a statement is printed as a text that starts with a token, provided that
the name it may be printed with first starts plainly: every other statement or expression
starts with a keyword, a literal, a bracket or an operator.

* `OpensAt` — the text of an expression starts with a token, or is empty because the
  expression is a sequence of nothing;
* `expression_opens` — what an expression is printed as opens like that;
* `render_front` — so does a program.
-/

namespace NameRecovery

open Source Grammar NameRecovery.Tree

namespace Printer

/-! ## Texts that start with a token -/

/-- Does the text of an expression start with a token?  A sequence of nothing, which may
stand only where a sequence may, has none. -/
def OpensAt (minimum : Nat) (text : String) : Prop :=
  IsFront text.toList ∨ text = "" ∧ minimum = sequenceLevel

section Texts

variable {text : String} {minimum : Nat}

theorem isFront_append {text : String} (h : IsFront text.toList) (more : String) :
    IsFront (text ++ more).toList := by
  rw [String.toList_append]
  exact h.append more.toList

/-- A text that starts with a small letter or one of the marks. -/
theorem isFront_of_head
    (h : (text.toList.head?.any fun c => c.isLower || openingMarks.contains c) = true) :
    IsFront text.toList := by
  cases htext : text.toList with
  | nil => rw [htext] at h; cases h
  | cons c cs =>
      rw [htext, List.head?_cons, Option.any_some, Bool.or_eq_true, List.contains_iff_mem] at h
      rcases h with hlower | hmark
      · refine .word (by simp [isNamePart, isNameStart_isLower hlower]) ?_
        rintro rfl
        cases hlower
      · exact .mark hmark

/-- A text behind a word or a bracket. -/
theorem isFront_word {word : String}
    (h : (word.toList.head?.any fun c => c.isLower || openingMarks.contains c) = true)
    (more : String) : IsFront (word ++ more).toList :=
  isFront_append (isFront_of_head h) more

theorem isFront_of_opensDeclaration (h : OpensDeclaration text) : IsFront text.toList := by
  obtain ⟨word, hword, c, rest, -, htext⟩ := h
  have hall : declarationWords.all (fun word =>
      word.toList.head?.any fun c => c.isLower || openingMarks.contains c) = true := by decide
  rw [htext]
  exact (isFront_of_head (List.all_eq_true.1 hall word hword)).append _

theorem OpensAt.tight (h : OpensAt minimum text) (hminimum : sequenceLevel < minimum) :
    IsFront text.toList := by
  rcases h with h | ⟨-, rfl⟩
  · exact h
  · exact absurd hminimum (Nat.lt_irrefl _)

/-- Before a closing parenthesis or a semicolon such a text starts with a token. -/
theorem OpensAt.closed (h : OpensAt minimum text) {close : String}
    (hclose : IsFront close.toList) : IsFront (text ++ close).toList := by
  rcases h with h | ⟨rfl, -⟩
  · exact isFront_append h close
  · rwa [String.empty_append]

theorem isFront_inParens (h : IsFront (text ++ ")").toList) : IsFront (inParens text).toList := by
  rw [inParens, String.append_assoc, String.toList_append]
  exact .paren h

end Texts

/-! ## What is known of a tree -/

/-- Do the literals of the tree start texts, and the name it may be printed with first
plainly? -/
structure Opened (t : Tree) : Prop where
  /-- The literals do. -/
  made : Made Lexicon.front t
  /-- The name does. -/
  plain : t.isPlainlyOpened = true

section Fields

variable {t value : Tree} {kind key : String} {fields : List (String × Tree)}

theorem get_of_need (h : (Tree.node kind fields).need key = .ok value) :
    (Tree.node kind fields).get key = value := by
  unfold Tree.need at h
  unfold Tree.get
  cases hfound : (Tree.node kind fields).get? key with
  | none => simp [hfound] at h
  | some found =>
      rw [hfound] at h
      exact Except.ok.inj h

/-- What a node is printed with first is known as well. -/
theorem Opened.get (h : Opened (.node kind fields)) (key : String)
    (hleading : leadingField? kind (.node kind fields) = some key) :
    Opened ((Tree.node kind fields).get key) := by
  refine ⟨h.made.get key, ?_⟩
  rw [isPlainlyOpened, ← opening?_leading key hleading]
  exact h.plain

theorem Opened.need (h : Opened (.node kind fields))
    (hleading : leadingField? kind (.node kind fields) = some key)
    (hneed : (Tree.node kind fields).need key = .ok value) : Opened value :=
  get_of_need hneed ▸ h.get key hleading

end Fields

/-- Do the rules print expressions like that? -/
def Rules.Open (rules : Rules) : Prop :=
  ∀ place minimum t, Opened t → Gives (rules.expression place minimum t) (OpensAt minimum)

section Forms

variable {rules : Rules} {place : Place} {t : Tree} {kind key : String}
  {fields : List (String × Tree)}

/-- A form whose text starts with that of one of its fields. -/
theorem leading_opens (hrules : rules.Open) (h : Opened (.node kind fields))
    (hleading : leadingField? kind (.node kind fields) = some key) {minimum : Nat}
    (hminimum : sequenceLevel < minimum) {f : String → Print}
    (hf : ∀ text, IsFront text.toList → Gives (f text) fun text => IsFront text.toList) :
    Gives ((Tree.node kind fields).need key >>= fun value =>
      rules.expression place minimum value >>= f) fun text => IsFront text.toList :=
  .bindEq fun value hvalue =>
    .bind (hrules place minimum value (h.need hleading hvalue)) fun text htext =>
      hf text (htext.tight hminimum)

theorem access_opens (hrules : rules.Open) (h : Opened (.node "MemberExpression" fields)) :
    Gives (rules.access place (.node "MemberExpression" fields)) fun text =>
      IsFront text.toList := by
  refine .bindEq fun object hobject => ?_
  refine .bind (hrules place memberLevel object (h.need rfl hobject)) fun text htext => ?_
  replace htext := htext.tight (by decide)
  extract_lets inner
  have hinner : IsFront inner.toList := by
    dsimp only [inner]
    split
    · exact isFront_inParens (isFront_append htext ")")
    · exact htext
  refine .ite (fun _ => ?_) fun _ => ?_
  · refine .skip fun property => .skip fun index => .pure ?_
    exact isFront_append (isFront_append (isFront_append hinner _) _) _
  · refine .skip fun property => .skip fun name => .pure ?_
    exact isFront_append (isFront_append hinner _) _

theorem call_opens (hrules : rules.Open) (h : Opened (.node "CallExpression" fields)) :
    Gives (rules.call place (.node "CallExpression" fields)) fun text => IsFront text.toList :=
  leading_opens hrules h rfl (by decide) fun _ htext =>
    .skip fun args => .pure (isFront_append htext args)

theorem taggedTemplate_opens (hrules : rules.Open)
    (h : Opened (.node "TaggedTemplateExpression" fields)) :
    Gives (rules.taggedTemplate place (.node "TaggedTemplateExpression" fields)) fun text =>
      IsFront text.toList :=
  leading_opens hrules h rfl (by decide) fun _ htext =>
    .skip fun _ => .skip fun quasi => .pure (isFront_append htext quasi)

theorem conditional_opens (hrules : rules.Open) (h : Opened (.node "ConditionalExpression" fields)) :
    Gives (rules.conditional place (.node "ConditionalExpression" fields)) fun text =>
      IsFront text.toList := by
  refine leading_opens hrules h rfl (by decide) fun text htext => ?_
  refine .skip fun _ => .skip fun _ => .skip fun _ => .skip fun _ => .pure ?_
  simp only [String.append_assoc]
  exact isFront_append htext _

theorem assignment_opens (hrules : rules.Open) (h : Opened (.node "AssignmentExpression" fields)) :
    Gives (rules.assignment place (.node "AssignmentExpression" fields)) fun text =>
      IsFront text.toList := by
  refine leading_opens hrules h rfl (by decide) fun text htext => ?_
  refine .skip fun _ => .skip fun _ => .skip fun _ => .pure ?_
  simp only [String.append_assoc]
  exact isFront_append htext _

theorem withDefault_opens (hrules : rules.Open) (h : Opened (.node "AssignmentPattern" fields)) :
    Gives (rules.withDefault place (.node "AssignmentPattern" fields)) fun text =>
      IsFront text.toList := by
  refine leading_opens hrules h rfl (by decide) fun text htext => ?_
  refine .skip fun _ => .skip fun _ => .pure ?_
  simp only [String.append_assoc]
  exact isFront_append htext _

theorem operatorLevel_pos (t : Tree) : 0 < operatorLevel t := by
  cases t with
  | text operator =>
      have hall : operatorLevels.all (fun entry => decide (0 < entry.2)) = true := by decide
      rw [operatorLevel]
      cases hlevel : operatorLevels.find? operator with
      | none => decide
      | some level =>
          exact of_decide_eq_true (List.all_eq_true.1 hall _ (Table.mem_of_find? hlevel))
  | _ => exact (by decide : 0 < unaryLevel)

theorem binary_opens (hrules : rules.Open)
    (hkind : kind = "BinaryExpression" ∨ kind = "LogicalExpression")
    (h : Opened (.node kind fields)) :
    Gives (rules.binary place (.node kind fields)) fun text => IsFront text.toList := by
  have hleading : leadingField? kind (.node kind fields) = some "left" := by
    rcases hkind with rfl | rfl <;> rfl
  have hlevel : Gives (precedence (.node kind fields)) fun own => 0 < own := by
    have hneed : (Tree.node kind fields).needKind = .ok kind := rfl
    unfold precedence
    simp only [hneed, bind, Except.bind, if_pos hkind]
    exact .skip fun operator => .pure (operatorLevel_pos operator)
  unfold Rules.binary
  refine .skip fun operator => .bind hlevel fun own hown => .bindEq fun left hleft => ?_
  have hopened := h.need hleading hleft
  refine .ite (fun _ => ?_) fun _ => ?_
  · refine .bind (hrules place (own + 1) left hopened) fun text htext => .skip fun _ => ?_
    replace htext := htext.tight (Nat.succ_pos own)
    refine .skip fun _ => .pure ?_
    simp only [String.append_assoc]
    apply isFront_append
    split
    · exact isFront_inParens (isFront_append htext ")")
    · exact htext
  · refine .bind (hrules place own left hopened) fun text htext => .skip fun _ => .skip fun _ => ?_
    refine .pure ?_
    simp only [String.append_assoc]
    exact isFront_append (htext.tight hown) _

/-- The operator of a node, as the printer reads it. -/
theorem needText_operator (kind : String) {operator : String}
    (hoperator : fields.lookup "operator" = some (.text operator)) :
    (Tree.node kind fields).needText "operator" = .ok operator ∧
      ((Tree.node kind fields).get "operator").text? = some operator := by
  constructor
  · simp [Tree.needText, Tree.need, Tree.get?, hoperator, bind, Except.bind, Tree.asText]
  · simp [Tree.get, Tree.get?, hoperator, Tree.text?]

theorem update_opens (hrules : rules.Open) (h : Opened (.node "UpdateExpression" fields)) :
    Gives (rules.update place (.node "UpdateExpression" fields)) fun text =>
      IsFront text.toList := by
  obtain ⟨⟨operator, hoperator, hmem⟩, -⟩ := (made_node _ _).1 h.made
  obtain ⟨hneed, hget⟩ := needText_operator "UpdateExpression" hoperator
  unfold Rules.update
  rw [hneed]
  refine .bindEq fun found hfound => ?_
  obtain rfl := Except.ok.inj hfound
  refine .bindEq fun argument hargument => .ite (fun hprefix => ?_) fun hpostfix => ?_
  · simp only [List.mem_cons, List.not_mem_nil, or_false] at hmem
    rcases hmem with rfl | rfl
    · exact .skip fun text => .pure (isFront_word (by decide) _)
    · have hleading : leadingField? "UpdateExpression" (.node "UpdateExpression" fields) =
          some "argument" := by
        simp [leadingField?, hget]
      refine .bind (hrules place unaryLevel argument (h.need hleading hargument))
        fun text htext => .pure ?_
      rw [String.toList_append]
      exact .minus (.minus (htext.tight (by decide)))
  · have hleading : leadingField? "UpdateExpression" (.node "UpdateExpression" fields) =
        some "argument" := by
      simp [leadingField?, hpostfix]
    refine .bind (hrules place updateLevel argument (h.need hleading hargument))
      fun text htext => .pure ?_
    exact isFront_append (htext.tight (by decide)) _

theorem unary_opens (hrules : rules.Open) (h : Opened (.node "UnaryExpression" fields)) :
    Gives (rules.unary place (.node "UnaryExpression" fields)) fun text =>
      IsFront text.toList := by
  obtain ⟨⟨operator, hoperator, hmem⟩, -⟩ := (made_node _ _).1 h.made
  obtain ⟨hneed, hget⟩ := needText_operator "UnaryExpression" hoperator
  unfold Rules.unary
  rw [hneed]
  refine .bindEq fun found hfound => ?_
  obtain rfl := Except.ok.inj hfound
  refine .bindEq fun argument hargument => ?_
  by_cases hminus : operator = "-"
  · subst hminus
    have hleading : leadingField? "UnaryExpression" (.node "UnaryExpression" fields) =
        some "argument" := by
      simp [leadingField?, hget]
    refine .bind (hrules place unaryLevel argument (h.need hleading hargument)) fun text htext => ?_
    replace htext := htext.tight (by decide)
    refine .ite (fun _ => .pure ?_) fun _ => .pure ?_
    · rw [String.append_assoc, String.toList_append, String.toList_append]
      exact .minus (.blank htext)
    · rw [String.toList_append]
      exact .minus htext
  · have hall : unaryOperators.all (fun operator => operator == "-" ||
        operator.toList.head?.any fun c => c.isLower || openingMarks.contains c) = true := by decide
    have hhead := List.all_eq_true.1 hall operator hmem
    rw [beq_eq_false_iff_ne.2 hminus, Bool.false_or] at hhead
    refine .skip fun text => .ite (fun _ => .pure ?_) fun _ => .pure ?_
    · exact isFront_append (isFront_append (isFront_of_head hhead) _) _
    · exact isFront_append (isFront_of_head hhead) _

/-! ### Lists of expressions -/

/-- Are the items of a list known to be made, and the name they are printed with first to
start plainly? -/
structure OpenedItems (items : List Tree) : Prop where
  /-- The items are made. -/
  made : ∀ t ∈ items, Made Lexicon.front t
  /-- The name starts plainly. -/
  plain : (openingFirst items).all isPlainStart = true

theorem openingFirst_texts (texts : List String) : openingFirst (texts.map Tree.text) = none := by
  cases texts with
  | nil => simp [openingFirst]
  | cons text rest => simp [openingFirst, Tree.isNull, opening?]

theorem openedItems_texts (texts : List String) : OpenedItems (texts.map Tree.text) := by
  refine ⟨fun t ht => ?_, by rw [openingFirst_texts]; rfl⟩
  obtain ⟨text, -, rfl⟩ := List.mem_map.1 ht
  trivial

theorem Opened.listed {value : Tree} (h : Opened value) : Gives value.listed OpenedItems := by
  cases value with
  | list items =>
      refine .pure ⟨(made_list _).1 h.made, ?_⟩
      simpa [isPlainlyOpened, opening?] using h.plain
  | text s =>
      refine .pure ?_
      simpa [Function.comp_def] using openedItems_texts (s.toList.map String.singleton)
  | record fields =>
      refine .pure ?_
      simpa [Function.comp_def] using openedItems_texts (fields.map Prod.fst)
  | node kind fields =>
      refine .pure ?_
      simpa [Function.comp_def] using openedItems_texts ("type" :: fields.map Prod.fst)
  | _ => exact .error _

theorem Opened.items {value : Tree} (h : Opened value) : Gives value.items OpenedItems := by
  refine .ite (fun _ => h.listed) fun _ => .pure ⟨nofun, ?_⟩
  simp [openingFirst]

theorem OpenedItems.first {first : Tree} {rest : List Tree} (h : OpenedItems (first :: rest)) :
    Opened first := by
  refine ⟨h.made first List.mem_cons_self, ?_⟩
  have hplain := h.plain
  rw [openingFirst] at hplain
  split at hplain
  · rename_i hnull
    cases first <;> simp [isNull, isPlainlyOpened, opening?] at hnull ⊢
  · exact hplain

theorem OpenedItems.withoutHoles {items : List Tree} (h : OpenedItems items) :
    OpenedItems (items.filter fun t => !t.isNull) := by
  refine ⟨fun t ht => h.made t (List.mem_of_mem_filter ht), ?_⟩
  suffices hsame : openingFirst (items.filter fun t => !t.isNull) = openingFirst items by
    rw [hsame]
    exact h.plain
  clear h
  induction items with
  | nil => rfl
  | cons first rest ih =>
      by_cases hnull : first.isNull = true
      · rw [List.filter_cons_of_neg (by simp [hnull]), openingFirst, if_pos hnull, ih]
      · rw [List.filter_cons_of_pos (by simp [hnull]), openingFirst, openingFirst, if_neg hnull,
          if_neg hnull]

/-- Expressions with commas between start with the first of them. -/
theorem commas_open (hrules : rules.Open) {items : List Tree} (h : OpenedItems items) :
    Gives (each (rules.expression place assignmentLevel) items) fun texts =>
      OpensAt sequenceLevel (String.intercalate ", " texts) := by
  cases items with
  | nil => exact .pure (.inr ⟨rfl, rfl⟩)
  | cons first rest =>
      refine .bind (hrules place assignmentLevel first h.first) fun text htext => ?_
      replace htext := htext.tight (by decide)
      refine .skip fun texts => .pure (.inl ?_)
      cases texts with
      | nil => rwa [String.intercalate_singleton]
      | cons next texts =>
          rw [String.intercalate_cons_cons, String.append_assoc]
          exact isFront_append htext _

theorem sequence_opens (hrules : rules.Open) (h : Opened (.node "SequenceExpression" fields)) :
    Gives (rules.sequence place (.node "SequenceExpression" fields)) (OpensAt sequenceLevel) := by
  refine .bindEq fun value hvalue => .bind (h.need rfl hvalue).listed fun items hitems => ?_
  exact .bind (commas_open hrules hitems) fun texts htexts => .pure htexts

theorem arguments_open (hrules : rules.Open) {items : List Tree} (h : OpenedItems items) :
    Gives (rules.arguments place items) (OpensAt sequenceLevel) :=
  .bind (commas_open hrules h.withoutHoles) fun _ htexts => .pure htexts

theorem arrow_opens (hrules : rules.Open) (h : Opened (.node "ArrowFunctionExpression" fields)) :
    Gives (rules.arrow place (.node "ArrowFunctionExpression" fields)) fun text =>
      IsFront text.toList := by
  have hrest : ∀ head : String, IsFront head.toList → Gives (do
      let body ← (Tree.node "ArrowFunctionExpression" fields).need "body"
      if (← body.needKind) = "BlockStatement" then
        return head ++ (← rules.blockOf place.level body)
      else
        let text ← rules.expression place assignmentLevel body
        return head ++ (if text.toList.head? = some '{' then inParens text else text)) fun text =>
      IsFront text.toList := by
    intro head hhead
    refine .skip fun body => .skip fun kind => .ite (fun _ => ?_) fun _ => ?_
    · exact .skip fun block => .pure (isFront_append hhead _)
    · exact .skip fun text => .pure (isFront_append hhead _)
  unfold Rules.arrow
  by_cases hasync : (Tree.node "ArrowFunctionExpression" fields).has "async" = true
  · refine .skip fun items => .skip fun params => hrest _ ?_
    rw [if_pos hasync]
    exact isFront_append (isFront_append (isFront_word (by decide) _) _) _
  · have hleading : leadingField? "ArrowFunctionExpression" (.node "ArrowFunctionExpression" fields) =
        some "params" := by
      simp [leadingField?, hasync]
    refine .bind (h.get "params" hleading).items fun items hitems => ?_
    refine .bind (arguments_open hrules hitems) fun params hparams => hrest _ ?_
    rw [if_neg hasync, String.empty_append, String.append_assoc, String.toList_append]
    exact .paren (hparams.closed (isFront_of_head (by decide)))

/-! ### Names and literals -/

theorem needText_name {t : Tree} (h : t.name?.all isPlainStart = true) :
    Gives (t.needText "name") fun text => IsFront text.toList := by
  refine .bindEq fun value hvalue text htext => ?_
  cases value with
  | text s =>
      obtain rfl := Except.ok.inj htext
      have hname : t.name? = some s := by
        cases t with
        | record fields =>
            cases hfound : fields.lookup "name" <;>
              simp [Tree.need, name?, Tree.get, Tree.get?, hfound] at hvalue ⊢
            rw [hvalue]
            rfl
        | node kind fields => rw [name?, get_of_need hvalue]; rfl
        | _ => cases hvalue
      rw [hname] at h
      exact isFront_of_isPlainStart h
  | _ => cases htext

theorem metaProperty_opens (h : Opened (.node "MetaProperty" fields)) :
    Gives (Rules.metaProperty (.node "MetaProperty" fields)) fun text => IsFront text.toList := by
  have hplain := h.plain
  rw [isPlainlyOpened, opening?_label "meta" rfl] at hplain
  refine .bindEq fun value hvalue => ?_
  rw [get_of_need hvalue] at hplain
  refine .bind (needText_name hplain) fun name hname => .skip fun _ => .skip fun _ => .pure ?_
  exact isFront_append (isFront_append hname _) _

theorem literal_opens (h : Made Lexicon.front (.node "Literal" fields)) :
    IsFront (literal (.node "Literal" fields)).toList := by
  obtain ⟨⟨raw, hraw, hfront⟩, -⟩ := (made_node _ _).1 h
  have hget : (Tree.node "Literal" fields).get "raw" = .text raw := by
    simp [Tree.get, Tree.get?, hraw]
  rw [literal, hget]
  exact hfront

/-! ### Forms with a word or a bracket first -/

theorem array_opens (t : Tree) : Gives (rules.array place t) fun text => IsFront text.toList := by
  refine .skip fun elements => .skip fun texts => .pure ?_
  exact isFront_append (isFront_append (isFront_word (by decide) _) _) _

theorem object_opens (t : Tree) : Gives (rules.object place t) fun text => IsFront text.toList := by
  refine .skip fun properties => .ite (fun _ => .pure (isFront_of_head (by decide))) fun _ => ?_
  refine .skip fun texts => .pure ?_
  exact isFront_append (isFront_append (isFront_append (isFront_append
    (isFront_of_head (by decide)) _) _) _) _

theorem objectPattern_opens (t : Tree) :
    Gives (rules.objectPattern place t) fun text => IsFront text.toList := by
  refine .skip fun properties => .skip fun texts => .pure ?_
  exact isFront_append (isFront_word (by decide) _) _

theorem template_opens (t : Tree) :
    Gives (rules.template place t) fun text => IsFront text.toList := by
  refine .skip fun t => .skip fun quasis => .skip fun exprs => .skip fun parts => .pure ?_
  exact isFront_append (isFront_word (by decide) _) _

theorem new_opens (t : Tree) : Gives (rules.new place t) fun text => IsFront text.toList := by
  refine .skip fun callee => .skip fun text => .skip fun args => .pure ?_
  exact isFront_append (isFront_word (by decide) _) _

theorem spread_opens (t : Tree) : Gives (rules.spread place t) fun text => IsFront text.toList := by
  refine .skip fun argument => .skip fun text => .pure ?_
  exact isFront_word (by decide) _

theorem await_opens (t : Tree) : Gives (rules.await place t) fun text => IsFront text.toList := by
  refine .skip fun argument => .skip fun text => .pure ?_
  exact isFront_word (by decide) _

theorem yield_opens (t : Tree) : Gives (rules.yield place t) fun text => IsFront text.toList := by
  have hword : IsFront (if t.has "delegate" then "yield*" else "yield").toList := by
    split <;> exact isFront_of_head (by decide)
  refine .ite (fun _ => .pure hword) fun _ => .skip fun text => .pure ?_
  exact isFront_append (isFront_append hword _) _

/-! ### All expressions -/

/-- The text of a form starts with a token, unless it is that of a sequence of nothing. -/
theorem form_opens (hrules : rules.Open) (h : Opened (.node kind fields))
    {form : Place → Tree → Print} (hform : rules.expressionForm? kind = some form) :
    Gives (form place (.node kind fields)) fun text =>
      IsFront text.toList ∨ text = "" ∧ kind = "SequenceExpression" := by
  have hfront : ∀ {p : Print}, Gives p (fun text => IsFront text.toList) →
      Gives p fun text => IsFront text.toList ∨ text = "" ∧ kind = "SequenceExpression" :=
    fun hp text htext => .inl (hp text htext)
  unfold Rules.expressionForm? at hform
  split at hform
  all_goals cases hform
  · have hplain := h.plain
    rw [isPlainlyOpened, opening?_identifier] at hplain
    exact hfront (needText_name hplain)
  · exact hfront (.pure (literal_opens h.made))
  · exact hfront (.pure (isFront_of_head (by decide)))
  · exact hfront (.pure (isFront_of_head (by decide)))
  · exact hfront (.pure (isFront_of_head (by decide)))
  · exact hfront (array_opens _)
  · exact hfront (array_opens _)
  · exact hfront (object_opens _)
  · exact hfront (objectPattern_opens _)
  · exact hfront fun text htext => isFront_of_opensDeclaration (function_opens _ _ text htext)
  · exact hfront (arrow_opens hrules h)
  · exact hfront fun text htext => isFront_of_opensDeclaration (class_opens _ _ text htext)
  · exact hfront (template_opens _)
  · exact hfront (taggedTemplate_opens hrules h)
  · exact hfront (access_opens hrules h)
  · exact hfront (call_opens hrules h)
  · exact hfront (new_opens _)
  · intro text htext
    exact (sequence_opens hrules h text htext).imp_right fun hempty => ⟨hempty.1, rfl⟩
  · exact hfront (unary_opens hrules h)
  · exact hfront (update_opens hrules h)
  · exact hfront (binary_opens hrules (.inl rfl) h)
  · exact hfront (binary_opens hrules (.inr rfl) h)
  · exact hfront (conditional_opens hrules h)
  · exact hfront (assignment_opens hrules h)
  · exact hfront (withDefault_opens hrules h)
  · exact hfront (spread_opens _)
  · exact hfront (spread_opens _)
  · exact hfront (yield_opens _)
  · exact hfront (await_opens _)
  · exact hfront (metaProperty_opens h)

theorem expressionAt_opens (hrules : rules.Open) {minimum : Nat} (h : Opened t) :
    Gives (rules.expressionAt place minimum t) (OpensAt minimum) := by
  cases t with
  | node kind fields =>
      have hneed : (Tree.node kind fields).needKind = .ok kind := rfl
      unfold Rules.expressionAt
      rw [hneed]
      refine .bindEq fun found hfound => ?_
      obtain rfl := Except.ok.inj hfound
      split
      · exact .skip fun _ => .error _
      · rename_i form hform
        refine .bindEq fun strength hstrength => .skip fun exposed => .ite (fun _ => ?_) fun hbare => ?_
        · refine .bind (form_opens hrules h hform) fun text htext => .pure (.inl ?_)
          apply isFront_inParens
          rcases htext with htext | ⟨rfl, -⟩
          · exact isFront_append htext _
          · exact isFront_of_head (by decide)
        · intro text htext
          rcases form_opens hrules h hform text htext with hfront | ⟨hempty, rfl⟩
          · exact .inl hfront
          · cases hstrength
            simp only [Bool.or_eq_true, decide_eq_true_eq, not_or] at hbare
            exact .inr ⟨hempty, Nat.le_zero.1 (Nat.not_lt.1 hbare.1)⟩
  | record fields => cases h.plain
  | _ =>
      intro text htext
      cases htext

end Forms

/-- Expressions are printed with a token first, or as nothing. -/
theorem expression_opens (indent : String) (depth : Nat) : (rules indent depth).Open := by
  induction depth with
  | zero => exact fun _ _ _ _ => .error _
  | succ depth ih => exact fun _ _ _ h => expressionAt_opens ih h

/-! ## Statements -/

section Statements

variable {rules : Rules} {level : Nat} {fields : List (String × Tree)}

theorem expressionStatement_opens (hrules : rules.Open)
    (h : Opened (.node "ExpressionStatement" fields)) :
    Gives (rules.expressionStatement level (.node "ExpressionStatement" fields)) fun text =>
      IsFront text.toList := by
  have hpart : Gives (rules.part level (.node "ExpressionStatement" fields) "expression")
      (OpensAt sequenceLevel) :=
    .bindEq fun value hvalue => hrules _ _ value (h.need rfl hvalue)
  refine .bind hpart fun text htext => .pure ?_
  split
  · exact isFront_append (isFront_inParens (htext.closed (isFront_of_head (by decide)))) _
  · exact htext.closed (isFront_of_head (by decide))

theorem labelled_opens (h : Opened (.node "LabeledStatement" fields)) :
    Gives (rules.labelled level (.node "LabeledStatement" fields)) fun text =>
      IsFront text.toList := by
  have hplain := h.plain
  rw [isPlainlyOpened, opening?_label "label" rfl] at hplain
  have hlabel : Gives (Rules.nameOf (.node "LabeledStatement" fields) "label") fun text =>
      IsFront text.toList := by
    refine .bindEq fun value hvalue => ?_
    rw [get_of_need hvalue] at hplain
    exact needText_name hplain
  refine .bind hlabel fun label hlabel => .skip fun _ => .skip fun _ => .pure ?_
  exact isFront_append (isFront_append hlabel _) _

theorem variableDeclaration_opens (h : Made Lexicon.front (.node "VariableDeclaration" fields)) :
    Gives (rules.declaration ⟨level, false⟩ (.node "VariableDeclaration" fields)) fun text =>
      IsFront text.toList := by
  obtain ⟨⟨kind, hkind, hmem⟩, -⟩ := (made_node _ _).1 h
  have hneed : (Tree.node "VariableDeclaration" fields).need "kind" = .ok (.text kind) := by
    simp [Tree.need, Tree.get?, hkind]
  have hall : ["var", "let", "const"].all (fun word =>
      word.toList.head?.any fun c => c.isLower || openingMarks.contains c) = true := by decide
  unfold Rules.declaration
  refine .skip fun value => .skip fun items => .skip fun parts => ?_
  rw [hneed]
  refine .bindEq fun found hfound => .pure ?_
  obtain rfl := Except.ok.inj hfound
  rw [Tree.inText, String.append_assoc]
  exact isFront_word (List.all_eq_true.1 hall kind hmem) _

theorem block_opens (t : Tree) : Gives (rules.blockOf level t) fun text => IsFront text.toList := by
  refine .skip fun body => .skip fun statements => .ite (fun _ => .pure (isFront_of_head (by decide))) ?_
  refine fun _ => .skip fun lines => .pure ?_
  simp only [Rules.braced, String.append_assoc]
  exact isFront_word (by decide) _

theorem returnStatement_opens (t : Tree) :
    Gives (rules.returnStatement level t) fun text => IsFront text.toList := by
  refine .ite (fun _ => .pure (isFront_of_head (by decide))) fun _ => .skip fun text => .pure ?_
  rw [String.append_assoc]
  exact isFront_word (by decide) _

theorem throwStatement_opens (t : Tree) :
    Gives (rules.throwStatement level t) fun text => IsFront text.toList := by
  refine .skip fun text => .pure ?_
  rw [String.append_assoc]
  exact isFront_word (by decide) _

theorem ifStatement_opens (t : Tree) :
    Gives (rules.ifStatement level t) fun text => IsFront text.toList := by
  refine .skip fun test => .ite (fun _ => ?_) fun _ => ?_
  · refine .skip fun consequent => .skip fun text => .pure ?_
    simp only [String.append_assoc]
    exact isFront_word (by decide) _
  · refine .skip fun value => .skip fun consequent => .skip fun kind => ?_
    refine .ite (fun _ => .skip fun rest => .pure ?_) fun _ => .skip fun rest => .pure ?_
    all_goals
      simp only [String.append_assoc]
      exact isFront_word (by decide) _

theorem forStatement_opens (t : Tree) :
    Gives (rules.forStatement level t) fun text => IsFront text.toList := by
  refine .skip fun init => .skip fun test => .skip fun update => .skip fun body => .pure ?_
  simp only [String.append_assoc]
  exact isFront_word (by decide) _

theorem forEach_opens (word : String) (minimum : Nat) (t : Tree) :
    Gives (rules.forEach word minimum level t) fun text => IsFront text.toList := by
  refine .skip fun leftNode => .skip fun left => .skip fun rightNode => .skip fun right =>
    .skip fun body => .pure ?_
  simp only [String.append_assoc]
  exact isFront_word (by decide) _

theorem headed_opens {word : String}
    (h : (word.toList.head?.any fun c => c.isLower || openingMarks.contains c) = true)
    (key : String) (t : Tree) :
    Gives (rules.headed word key level t) fun text => IsFront text.toList := by
  refine .skip fun head => .skip fun body => .pure ?_
  simp only [String.append_assoc]
  exact isFront_word h _

theorem doWhile_opens (t : Tree) :
    Gives (rules.doWhile level t) fun text => IsFront text.toList := by
  refine .skip fun test => .skip fun body => .pure ?_
  simp only [String.append_assoc]
  exact isFront_word (by decide) _

theorem jump_opens {word : String}
    (h : (word.toList.head?.any fun c => c.isLower || openingMarks.contains c) = true) (t : Tree) :
    Gives (Rules.jump word t) fun text => IsFront text.toList := by
  refine .ite (fun _ => .skip fun label => .skip fun name => .pure ?_) fun _ => .pure ?_
  · simp only [String.append_assoc]
    exact isFront_word h _
  · exact isFront_word h _

theorem tryStatement_opens (t : Tree) :
    Gives (rules.tryStatement level t) fun text => IsFront text.toList := by
  have hrest : ∀ block caught final : String,
      IsFront ("try " ++ block ++ caught ++ final).toList := by
    intro block caught final
    simp only [String.append_assoc]
    exact isFront_word (by decide) _
  have hfinal : ∀ block caught, Gives (do
      let final ←
        if (t.get "finalizer").isNull then pure ""
        else do pure (" finally " ++ (← rules.blockOf level (t.get "finalizer")))
      return "try " ++ block ++ caught ++ final) fun text => IsFront text.toList := by
    intro block caught
    refine .ite (fun _ => .pure (hrest _ _ _)) fun _ => .skip fun final => .pure (hrest _ _ _)
  refine .skip fun blockNode => .skip fun block => .ite (fun _ => hfinal _ _) fun _ => ?_
  exact .skip fun caught => hfinal _ _

theorem switchStatement_opens (t : Tree) :
    Gives (rules.switchStatement level t) fun text => IsFront text.toList := by
  refine .skip fun test => .skip fun cases => .ite (fun _ => .pure ?_) fun _ => .skip fun lines => .pure ?_
  all_goals
    simp only [String.append_assoc]
    exact isFront_word (by decide) _

theorem importDeclaration_opens (t : Tree) :
    Gives (Rules.importDeclaration t) fun text => IsFront text.toList := by
  refine .skip fun sourceNode => .skip fun source => .skip fun specifiers => .ite (fun _ => .pure ?_) ?_
  · rw [String.append_assoc]
    exact isFront_word (by decide) _
  · refine fun _ => .skip fun names => .pure ?_
    simp only [String.append_assoc]
    exact isFront_word (by decide) _

theorem exportNamed_opens (t : Tree) :
    Gives (rules.exportNamed level t) fun text => IsFront text.toList := by
  refine .ite (fun _ => .skip fun text => .pure (isFront_word (by decide) _)) fun _ => ?_
  refine .skip fun items => .skip fun names => .ite (fun _ => .pure ?_) fun _ => ?_
  · simp only [String.append_assoc]
    exact isFront_word (by decide) _
  · refine .skip fun origin => .pure ?_
    simp only [String.append_assoc]
    exact isFront_word (by decide) _

theorem exportDefault_opens (t : Tree) :
    Gives (rules.exportDefault level t) fun text => IsFront text.toList := by
  refine .skip fun declaration => .skip fun kind => .ite (fun _ => ?_) fun _ => ?_
  · exact .skip fun text => .pure (isFront_word (by decide) _)
  · refine .skip fun text => .pure ?_
    rw [String.append_assoc]
    exact isFront_word (by decide) _

/-- The text of a statement starts with a token. -/
theorem statementAt_opens (hrules : rules.Open) {t : Tree} (h : Opened t) :
    Gives (rules.statementAt level t) fun text => IsFront text.toList := by
  cases t with
  | node kind fields =>
      have hneed : (Tree.node kind fields).needKind = .ok kind := rfl
      unfold Rules.statementAt
      rw [hneed]
      refine .bindEq fun found hfound => ?_
      obtain rfl := Except.ok.inj hfound
      split
      · exact .skip fun _ => .error _
      rename_i form hform
      unfold Rules.statementForm? at hform
      split at hform
      all_goals cases hform
      · exact block_opens _
      · exact .pure (isFront_of_head (by decide))
      · exact .pure (isFront_of_head (by decide))
      · exact expressionStatement_opens hrules h
      · exact .bind (variableDeclaration_opens h.made) fun text htext =>
          .pure (isFront_append htext _)
      · exact fun text htext => isFront_of_opensDeclaration (function_opens _ _ text htext)
      · exact fun text htext => isFront_of_opensDeclaration (class_opens _ _ text htext)
      · exact returnStatement_opens _
      · exact throwStatement_opens _
      · exact ifStatement_opens _
      · exact forStatement_opens _
      · exact forEach_opens _ _ _
      · exact forEach_opens _ _ _
      · exact headed_opens (by decide) _ _
      · exact doWhile_opens _
      · exact headed_opens (by decide) _ _
      · exact labelled_opens h
      · exact jump_opens (by decide) _
      · exact jump_opens (by decide) _
      · exact tryStatement_opens _
      · exact switchStatement_opens _
      · exact importDeclaration_opens _
      · exact exportNamed_opens _
      · exact exportDefault_opens _
      · refine .skip fun sourceNode => .skip fun source => .pure ?_
        rw [String.append_assoc]
        exact isFront_word (by decide) _
  | record fields => cases h.plain
  | _ =>
      intro text htext
      cases htext

end Statements

end Printer

open Printer

/-- A program with a statement is printed as a text that starts with a token. -/
theorem render_front {indent : String} {fields : List (String × Tree)} {first : Tree}
    {more : List Tree} (h : Opened (.node "Program" fields))
    (hbody : (Tree.node "Program" fields).get "body" = .list (first :: more)) :
    Gives ((Tree.node "Program" fields).render indent) fun text => IsFront text.toList := by
  intro text htext
  obtain ⟨depth, line, rest, hline, rfl⟩ := render_first hbody text htext
  have hitems := h.get "body" rfl
  rw [hbody] at hitems
  have hfirst : Opened first := (hitems.listed _ rfl).first
  exact isFront_append (statementAt_opens (expression_opens indent _) hfirst line hline) _

end NameRecovery
