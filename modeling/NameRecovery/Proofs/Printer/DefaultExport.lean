import NameRecovery.Proofs.Grammar.Statement
import NameRecovery.Proofs.Grammar.Words
import NameRecovery.Proofs.Printer.Gives
import NameRecovery.Proofs.Printer.Reparse

/-!
# Default exports that are read as declarations

A statement that starts like a declaration is printed in parentheses, but the value of
a default export is not.  A value that starts with a function or a class is printed
with the word `function` or `class` first, and read back as a declaration that ends
with its body; what is left of the value becomes a statement of its own.

* `isFunctionChain` — accesses, calls and templates that start with a function or a
  class;
* `render_exportsChain` — the default export of such a chain is printed like a
  declaration;
* `declares_of_parse` — what is printed like that is read as a declaration;
* `render_declares` — a declaration ends its line with a closing brace.
-/

namespace NameRecovery

open Source Printer Reader

/-! ## Values that start with a function -/

mutual

/-- Does a chain of accesses, calls and templates start with a function or a class? -/
def isFunctionChain : Tree → Bool
  | .node "FunctionExpression" _ => true
  | .node "ClassExpression" _ => true
  | .node "MemberExpression" fields => isFunctionChainIn "object" fields
  | .node "CallExpression" fields => isFunctionChainIn "callee" fields
  | .node "TaggedTemplateExpression" fields => isFunctionChainIn "tag" fields
  | _ => false

/-- Does such a chain stand in a field? -/
def isFunctionChainIn (key : String) : List (String × Tree) → Bool
  | [] => false
  | (k, value) :: rest => if k = key then isFunctionChain value else isFunctionChainIn key rest

end

/-- The value or declaration the program exports as its default, if its first statement
is such an export. -/
def defaultExport (t : Tree) : Tree :=
  match t.get "body" with
  | .list (first :: _) =>
    if first.isKind "ExportDefaultDeclaration" then first.get "declaration" else .null
  | _ => .null

/-- Is it the declaration of a function or a class? -/
def isDeclared (t : Tree) : Bool :=
  t.isKind "FunctionDeclaration" || t.isKind "ClassDeclaration"

/-- The words a declaration starts with. -/
def declarationWords : List String :=
  ["function", "async function", "class"]

/-- Does the text start with one of the words of a declaration? -/
def OpensDeclaration (text : String) : Prop :=
  ∃ word ∈ declarationWords, ∃ c rest, (c = ' ' ∨ c = '*') ∧
    text.toList = word.toList ++ c :: rest

/-- Does a line of the text end with a closing brace? -/
def BracesLine (text : String) : Prop :=
  ['}', '\n'] <:+: text.toList

instance (text : String) : Decidable (BracesLine text) :=
  inferInstanceAs (Decidable (_ <:+: _))

/-! ## Such values are printed like declarations -/

section Printing

variable {indent : String} {t : Tree}

theorem OpensDeclaration.append {text : String} (h : OpensDeclaration text) (more : String) :
    OpensDeclaration (text ++ more) := by
  obtain ⟨word, hword, c, rest, hc, htext⟩ := h
  exact ⟨word, hword, c, rest ++ more.toList, hc, by simp [htext]⟩

theorem isFunctionChainIn_eq (key : String) (fields : List (String × Tree)) :
    isFunctionChainIn key fields = isFunctionChain ((fields.lookup key).getD .null) := by
  induction fields with
  | nil => simp [isFunctionChainIn, isFunctionChain]
  | cons field rest ih =>
      obtain ⟨k, value⟩ := field
      rw [isFunctionChainIn, List.lookup_cons]
      by_cases hk : k = key
      · simp [hk]
      · have hkey : (key == k) = false := beq_eq_false_iff_ne.2 (Ne.symm hk)
        rw [if_neg hk, hkey]
        exact ih

theorem isFunctionChain_of_need {kind key : String} {fields : List (String × Tree)} {value : Tree}
    (hkey : key ≠ "type") (h : isFunctionChainIn key fields = true)
    (hneed : (Tree.node kind fields).need key = .ok value) : isFunctionChain value = true := by
  rw [isFunctionChainIn_eq] at h
  simp only [Tree.need, Tree.get?, if_neg hkey] at hneed
  cases hfound : fields.lookup key with
  | none => rw [hfound] at hneed; cases hneed
  | some found =>
      rw [hfound] at hneed h
      rw [← Except.ok.inj hneed]
      exact h

theorem kind_of_isFunctionChain (h : isFunctionChain t = true) :
    ∃ kind fields, t = .node kind fields ∧
      kind ∈ ["FunctionExpression", "ClassExpression", "MemberExpression", "CallExpression",
        "TaggedTemplateExpression"] := by
  unfold isFunctionChain at h
  split at h
  all_goals first | exact ⟨_, _, rfl, by decide⟩ | cases h

/-- Nothing, or something behind a blank. -/
def IsSpaced (text : String) : Prop :=
  text = "" ∨ ∃ own, text = " " ++ own

theorem function_opens (rules : Rules) (place : Place) :
    Gives (rules.function place t) OpensDeclaration := by
  have hhead : ∀ name tail : String, OpensDeclaration
      ((if t.has "async" then "async function" else "function") ++
        (if t.has "generator" then "*" else "") ++ " " ++ name ++ tail) := by
    intro name tail
    refine ⟨if t.has "async" then "async function" else "function", by split <;> decide,
      if t.has "generator" then '*' else ' ',
      (if t.has "generator" then [' '] else []) ++ name.toList ++ tail.toList, ?_, ?_⟩
    · split <;> simp
    · split <;> split <;> simp
  unfold Rules.function
  extract_lets head k
  have hk : ∀ name, Gives (k name) OpensDeclaration := fun name =>
    .skip fun tail => .pure (hhead name tail)
  exact .ite (fun _ => .skip fun _ => .skip fun name => hk name) fun _ => hk ""

theorem class_opens (rules : Rules) (place : Place) :
    Gives (rules.classText place t) OpensDeclaration := by
  have hopens : ∀ name parent body : String, IsSpaced name → IsSpaced parent →
      OpensDeclaration ("class" ++ name ++ parent ++ (" " ++ body)) := by
    rintro _ _ body (rfl | ⟨own, rfl⟩) (rfl | ⟨more, rfl⟩)
    all_goals exact ⟨"class", by decide, ' ', _, .inl rfl, by simp; rfl⟩
  unfold Rules.classText
  extract_lets inner withName
  have hname : ∀ name, IsSpaced name → Gives (withName name) OpensDeclaration := by
    intro name hname
    unfold withName
    extract_lets withParent
    have hparent : ∀ parent, IsSpaced parent → Gives (withParent parent) OpensDeclaration := by
      intro parent hparent
      unfold withParent
      extract_lets head withMembers
      have hmembers : ∀ members, Gives (withMembers members) OpensDeclaration := by
        intro members
        refine .ite (fun _ => .pure ?_) fun _ => .skip fun lines => .pure ?_
        · exact hopens name parent "\x7b\x7d" hname hparent
        · rw [String.append_assoc]
          exact hopens name parent _ hname hparent
      exact .ite (fun _ => .skip fun _ => .skip hmembers) fun _ => hmembers []
    refine .ite (fun _ => hparent "" (.inl rfl)) fun _ => .skip fun text => hparent _ (.inr ?_)
    exact ⟨"extends " ++ text, by simp [← String.append_assoc]⟩
  exact .ite (fun _ => .skip fun _ => .skip fun own => hname _ (.inr ⟨own, rfl⟩))
    fun _ => hname "" (.inl rfl)

/-- A function, a class or a member is printed without parentheses where a member may
stand. -/
theorem expressionAt_bare {rules : Rules} {place : Place} {minimum : Nat} {kind : String}
    {fields : List (String × Tree)} {form : Place → Tree → Print}
    (hform : rules.expressionForm? kind = some form) (hkind : kind ≠ "BinaryExpression")
    (hprecedence : precedence (.node kind fields) = .ok memberLevel ∨
      precedence (.node kind fields) = .ok primaryLevel)
    (hminimum : minimum ≤ memberLevel) :
    rules.expressionAt place minimum (.node kind fields) = form place (.node kind fields) := by
  have hexposed : Rules.isExposedIn place (.node kind fields) = .ok false := by
    have hnot : (Tree.node kind fields).isKind "BinaryExpression" = false := by
      simp [Tree.isKind, Tree.kind?, hkind]
    simp [Rules.isExposedIn, hnot]
    rfl
  have hneed : (Tree.node kind fields).needKind = .ok kind := rfl
  unfold Rules.expressionAt
  simp only [hneed, bind, Except.bind, hform, hexposed]
  rcases hprecedence with h | h
  · rw [h]
    have hlow : ¬ memberLevel < minimum := Nat.not_lt.2 hminimum
    simp [hlow]
  · rw [h]
    have hlow : ¬ primaryLevel < minimum := Nat.not_lt.2 (Nat.le_trans hminimum (by decide))
    simp [hlow]

/-- A chain that starts with a function or a class is printed like a declaration. -/
theorem chain_opens (depth : Nat) {place : Place} {minimum : Nat} (hminimum : minimum ≤ memberLevel)
    (ht : isFunctionChain t = true) :
    Gives ((Printer.rules indent depth).expression place minimum t) OpensDeclaration := by
  induction depth generalizing t minimum with
  | zero => exact .error _
  | succ depth ih =>
      change Gives ((Printer.rules indent depth).expressionAt place minimum t) _
      have hstart : ∀ {kind key : String} {fields : List (String × Tree)} {first : Tree},
          key ≠ "type" → isFunctionChainIn key fields = true →
          (Tree.node kind fields).need key = .ok first →
          Gives ((Printer.rules indent depth).expression place memberLevel first)
            OpensDeclaration :=
        fun hkey h hfirst => ih (Nat.le_refl _) (isFunctionChain_of_need hkey h hfirst)
      unfold isFunctionChain at ht
      split at ht
      · rw [expressionAt_bare rfl (by decide) (.inr rfl) hminimum]
        exact function_opens _ _
      · rw [expressionAt_bare rfl (by decide) (.inr rfl) hminimum]
        exact class_opens _ _
      · rw [expressionAt_bare rfl (by decide) (.inl rfl) hminimum]
        refine .bindEq fun object hobject => .bind (hstart (by decide) ht hobject) fun text htext => ?_
        -- the start of the chain is no number, so that it gets no parentheses
        have hliteral : object.isKind "Literal" = false := by
          obtain ⟨kind, fields, rfl, hkind⟩ := kind_of_isFunctionChain
            (isFunctionChain_of_need (by decide) ht hobject)
          have hne : kind ≠ "Literal" := by rintro rfl; revert hkind; decide
          simp [Tree.isKind, Tree.kind?, hne]
        rw [hliteral, Bool.false_and, if_neg Bool.false_ne_true]
        refine .ite (fun _ => .skip fun _ => .skip fun _ => .pure ?_) fun _ => .skip fun _ =>
          .skip fun _ => .pure ?_
        · rw [String.append_assoc, String.append_assoc]
          exact htext.append _
        · rw [String.append_assoc]
          exact htext.append _
      · rw [expressionAt_bare rfl (by decide) (.inl rfl) hminimum]
        exact .bindEq fun callee hcallee => .bind (hstart (by decide) ht hcallee) fun text htext =>
          .skip fun args => .pure (htext.append args)
      · rw [expressionAt_bare rfl (by decide) (.inl rfl) hminimum]
        exact .bindEq fun tag htag => .bind (hstart (by decide) ht htag) fun text htext =>
          .skip fun _ => .skip fun quasi => .pure (htext.append quasi)
      · cases ht

/-- A program is printed with its first statement on the first lines. -/
theorem render_first {fields : List (String × Tree)} {first : Tree} {more : List Tree}
    (h : (Tree.node "Program" fields).get "body" = .list (first :: more)) :
    Gives ((Tree.node "Program" fields).render indent) fun text => ∃ depth line rest,
      (Printer.rules indent (depth + 1)).statementAt 0 first = .ok line ∧
        text = line ++ ("\n" ++ rest) := by
  rw [render_program h]
  refine .bindEq fun line hline => .skip fun lines => .pure ?_
  cases lines with
  | nil => exact ⟨_, line, "", hline, by simp [String.intercalate_singleton]⟩
  | cons next lines =>
      refine ⟨_, line, String.intercalate "\n" (next :: lines) ++ "\n", hline, ?_⟩
      rw [String.intercalate_cons_cons]
      simp [String.append_assoc]

theorem defaultExport_cases (h : (defaultExport t).isNull = false) :
    ∃ first more fields, t.get "body" = .list (first :: more) ∧
      first = .node "ExportDefaultDeclaration" fields ∧
      first.need "declaration" = .ok (defaultExport t) := by
  unfold defaultExport at h ⊢
  split at h
  · next first more hbody =>
    split at h
    · next hkind =>
      obtain ⟨fields, rfl⟩ := eq_node_of_isKind hkind
      refine ⟨_, more, fields, hbody, rfl, ?_⟩
      rw [if_pos hkind]
      exact need_of_get rfl h
    · cases h
  · cases h

/-- A program whose first statement is a default export is printed with it. -/
theorem render_defaultExport (hkind : t.isKind "Program" = true)
    (h : (defaultExport t).isNull = false) :
    Gives (t.render indent) fun text => ∃ depth line rest fields,
      (Tree.node "ExportDefaultDeclaration" fields).need "declaration" = .ok (defaultExport t) ∧
        (Printer.rules indent (depth + 1)).exportDefault 0
          (.node "ExportDefaultDeclaration" fields) = .ok line ∧
        text = line ++ ("\n" ++ rest) := by
  obtain ⟨fields, rfl⟩ := eq_node_of_isKind hkind
  obtain ⟨_, more, first, hbody, rfl, hneed⟩ := defaultExport_cases h
  intro text htext
  obtain ⟨depth, line, rest, hline, rfl⟩ := render_first hbody text htext
  exact ⟨depth, line, rest, first, hneed, hline, rfl⟩

/-- What stands before the value of a default export. -/
def exportWords : String := "export default "

/-- A program that exports such a chain first is printed like one that exports a
declaration. -/
theorem render_exportsChain (hkind : t.isKind "Program" = true)
    (ht : isFunctionChain (defaultExport t) = true) :
    Gives (t.render indent) fun text =>
      ∃ value, OpensDeclaration value ∧ text = exportWords ++ value := by
  obtain ⟨kind, value, hvalue, hchain⟩ := kind_of_isFunctionChain ht
  have hnull : (defaultExport t).isNull = false := by rw [hvalue]; rfl
  have hdeclared : ¬ (kind = "FunctionDeclaration" ∨ kind = "ClassDeclaration") := by
    rintro (rfl | rfl) <;> revert hchain <;> decide
  intro text htext
  obtain ⟨depth, line, rest, fields, hneed, hline, rfl⟩ := render_defaultExport hkind hnull text htext
  have hopens : Gives ((Printer.rules indent (depth + 1)).exportDefault 0
      (.node "ExportDefaultDeclaration" fields))
      fun line => ∃ value, OpensDeclaration value ∧ line = exportWords ++ value := by
    unfold Rules.exportDefault
    rw [hneed, hvalue]
    change Gives (if kind = "FunctionDeclaration" ∨ kind = "ClassDeclaration" then _ else _) _
    rw [if_neg hdeclared, ← hvalue]
    refine .bind (chain_opens (depth + 1) (by decide) ht) fun text hopens => .pure ?_
    exact ⟨text ++ ";", hopens.append _, by simp [exportWords, String.append_assoc]⟩
  obtain ⟨value, hvalue, rfl⟩ := hopens line hline
  exact ⟨value ++ ("\n" ++ rest), hvalue.append _, by simp [String.append_assoc]⟩

/-- Does the text end with a closing brace? -/
def EndsInBrace (text : String) : Prop :=
  ∃ inner, text = inner ++ "\x7d"

theorem EndsInBrace.append {text : String} (h : EndsInBrace text) (before : String) :
    EndsInBrace (before ++ text) := by
  obtain ⟨inner, rfl⟩ := h
  exact ⟨before ++ inner, by rw [String.append_assoc]⟩

theorem braced_ends (rules : Rules) (level : Nat) (separator : String) (lines : List String) :
    EndsInBrace (rules.braced level separator lines) :=
  ⟨_, rfl⟩

theorem blockOf_ends (rules : Rules) (level : Nat) (t : Tree) :
    Gives (rules.blockOf level t) EndsInBrace := by
  refine .skip fun body => .skip fun statements => ?_
  unfold Rules.block
  exact .ite (fun _ => .pure ⟨"\x7b", rfl⟩) fun _ =>
    .skip fun lines => .pure (braced_ends _ _ _ _)

theorem function_ends (rules : Rules) (place : Place) :
    Gives (rules.function place t) EndsInBrace := by
  have htail : Gives (rules.functionTail place t) EndsInBrace :=
    .skip fun _ => .skip fun _ => .skip fun _ => .skip fun body =>
      .bind (blockOf_ends _ _ _) fun text htext => .pure (htext.append _)
  unfold Rules.function
  extract_lets head k
  have hk : ∀ name, Gives (k name) EndsInBrace := fun name =>
    .bind htail fun tail h => .pure (h.append _)
  exact .ite (fun _ => .skip fun _ => .skip hk) fun _ => hk ""

theorem class_ends (rules : Rules) (place : Place) :
    Gives (rules.classText place t) EndsInBrace := by
  unfold Rules.classText
  extract_lets inner withName
  have hname : ∀ name, Gives (withName name) EndsInBrace := by
    intro name
    unfold withName
    extract_lets withParent
    have hparent : ∀ parent, Gives (withParent parent) EndsInBrace := by
      intro parent
      unfold withParent
      extract_lets head withMembers
      have hmembers : ∀ members, Gives (withMembers members) EndsInBrace := fun members =>
        .ite (fun _ => .pure (EndsInBrace.append ⟨" \x7b", rfl⟩ head)) fun _ => .skip fun lines =>
          .pure ((braced_ends _ _ _ _).append _)
      exact .ite (fun _ => .skip fun _ => .skip hmembers) fun _ => hmembers []
    exact .ite (fun _ => hparent "") fun _ => .skip fun text => hparent _
  exact .ite (fun _ => .skip fun _ => .skip fun own => hname _) fun _ => hname ""

/-- A program that exports a declaration first has a line that ends with a brace. -/
theorem render_declares (hkind : t.isKind "Program" = true)
    (ht : isDeclared (defaultExport t) = true) : Gives (t.render indent) BracesLine := by
  obtain ⟨kind, value, hvalue, hdeclared⟩ : ∃ kind fields, defaultExport t = .node kind fields ∧
      (kind = "FunctionDeclaration" ∨ kind = "ClassDeclaration") := by
    simp only [isDeclared, Bool.or_eq_true] at ht
    rcases ht with h | h
    · obtain ⟨fields, hfields⟩ := eq_node_of_isKind h
      exact ⟨_, fields, hfields, .inl rfl⟩
    · obtain ⟨fields, hfields⟩ := eq_node_of_isKind h
      exact ⟨_, fields, hfields, .inr rfl⟩
  have hnull : (defaultExport t).isNull = false := by rw [hvalue]; rfl
  intro text htext
  obtain ⟨depth, line, rest, fields, hneed, hline, rfl⟩ := render_defaultExport hkind hnull text htext
  have hends : Gives ((Printer.rules indent (depth + 1)).exportDefault 0
      (.node "ExportDefaultDeclaration" fields)) EndsInBrace := by
    unfold Rules.exportDefault
    rw [hneed, hvalue]
    change Gives (if kind = "FunctionDeclaration" ∨ kind = "ClassDeclaration" then _ else _) _
    rw [if_pos hdeclared]
    have hstatement : Gives ((Printer.rules indent (depth + 1)).statement 0 (.node kind value))
        EndsInBrace := by
      rcases hdeclared with rfl | rfl
      · exact function_ends (Printer.rules indent depth) _
      · exact class_ends (Printer.rules indent depth) _
    exact .bind hstatement fun text h => .pure (h.append _)
  obtain ⟨inner, rfl⟩ := hends line hline
  exact ⟨inner.toList, rest.toList, by simp⟩

end Printing

/-! ## What is printed like a declaration is read as one -/

namespace Grammar

open Source NameRecovery.Tree

variable {rest : List Char}

theorem isDeclared_of_isA {kind : String} {t : Tree}
    (hkind : kind = "FunctionDeclaration" ∨ kind = "ClassDeclaration") (h : IsA [kind] t) :
    isDeclared t = true := by
  obtain ⟨found, fields, rfl, hfound⟩ := isAny_iff.1 h.1
  rw [List.mem_singleton.1 hfound]
  rcases hkind with rfl | rfl <;> rfl

/-- Before the words of an asynchronous function stands one. -/
theorem seesAsyncFunction_word {s s' : State} {seen : Bool} {c : Char}
    (hlook : s.lookahead.isName "async" = true) (hafter : isNamePart c = false)
    (hrest : s.cursor.rest = ' ' :: ("function".toList ++ c :: rest))
    (h : seesAsyncFunction s = .ok (seen, s')) : seen = true := by
  have hword : IsPlainWord "function".toList := isPlainWord_of_all (by decide)
  have hnext : (s.cursor.advance [' '].length).rest = "function".toList ++ c :: rest := by
    simp [Cursor.advance, hrest]
  unfold seesAsyncFunction at h
  obtain ⟨seesAsync, s₁, hsees, h⟩ := run_bind h
  cases hsees
  rw [if_pos hlook] at h
  obtain ⟨_, s₁, hget, h⟩ := run_bind h
  cases hget
  obtain ⟨next, s₂, htoken, h⟩ := run_bind h
  unfold tokenAfter at htoken
  obtain ⟨_, s₁, hget, htoken⟩ := run_bind htoken
  cases hget
  obtain ⟨start, s₁, hgap, htoken⟩ := run_bind htoken
  rw [skipGap_word _ hword (.inr rfl) hrest] at hgap
  cases hgap
  obtain ⟨found, s₁, hfound, htoken⟩ := run_bind htoken
  rw [scanToken_word _ hword (by rintro d ⟨⟩; exact hafter) hnext] at hfound
  cases hfound
  cases htoken
  cases h
  have hlexeme : (Lexeme.keyword "function" == .keyword "function") = true := by decide
  rw [Bool.and_eq_true, beq_iff_eq]
  exact ⟨rfl, hlexeme⟩

/-- The default export of what is printed like a declaration is one. -/
theorem exportDefault_declares {rules : Rules} {s s' : State} {t : Tree} {value : String}
    (hrules : rules.Formed) (hvalue : OpensDeclaration value)
    (hrest : s.cursor.rest = ' ' :: value.toList) (h : exportDefault rules s = .ok (t, s')) :
    ∃ declaration, isDeclared declaration = true ∧
      t = .node "ExportDefaultDeclaration" [("declaration", declaration)] := by
  have hfunction : ∀ {s₁}, (functionDeclaration rules true >>= fun declaration =>
      pure (Tree.node "ExportDefaultDeclaration" [("declaration", declaration)])) s₁ = .ok (t, s') →
      ∃ declaration, isDeclared declaration = true ∧
        t = .node "ExportDefaultDeclaration" [("declaration", declaration)] := by
    intro s₁ h
    obtain ⟨declaration, s₂, hdeclaration, h⟩ := run_bind h
    cases h
    exact ⟨_, isDeclared_of_isA (.inl rfl) (functionDeclaration_yields hrules _ _ _ _ hdeclaration),
      rfl⟩
  unfold exportDefault at h
  obtain ⟨token, s₁, hnext, h⟩ := run_bind h
  obtain ⟨isFunction, s₂, hfirst, h⟩ := run_bind h
  cases hfirst
  obtain ⟨isClass, s₂, hsecond, h⟩ := run_bind h
  cases hsecond
  obtain ⟨isAsync, s₂, hthird, h⟩ := run_bind h
  cases hthird
  obtain ⟨word, hword, c, rest, hc, htext⟩ := hvalue
  have hblank : isNamePart ' ' = false := isNamePart_mark (by decide)
  have hafter : isNamePart c = false := by
    rcases hc with rfl | rfl
    · exact hblank
    · rw [isNamePart_plain (by decide), isNameStart_plain (by decide)]
      decide
  simp only [declarationWords, List.mem_cons, List.not_mem_nil, or_false] at hword
  rcases hword with rfl | rfl | rfl
  · obtain ⟨-, hsees⟩ := nextToken_word "function" (.inr rfl) (by decide) (by decide) hafter
      (by rw [hrest, htext]; rfl) hnext
    have hlook : s₁.lookahead.isKeyword "function" = true := by
      rw [Token.isKeyword, hsees.lexeme]
      decide
    rw [if_pos hlook] at h
    exact hfunction h
  · obtain ⟨-, hsees⟩ := @nextToken_word ("function".toList ++ c :: rest) [' '] _ _ _ ' ' "async"
      (.inr rfl) (by decide) (by decide) hblank (by rw [hrest, htext]; rfl) hnext
    have hlook : s₁.lookahead.isKeyword "function" = false ∧
        s₁.lookahead.isKeyword "class" = false ∧ s₁.lookahead.isName "async" = true := by
      rw [Token.isKeyword, Token.isKeyword, Token.isName, hsees.lexeme]
      decide
    rw [hlook.1, hlook.2.1, hlook.2.2] at h
    obtain ⟨seen, s₂, hseen, h⟩ := run_bind h
    rw [seesAsyncFunction_word hlook.2.2 hafter hsees.rest hseen] at h
    exact hfunction h
  · obtain ⟨-, hsees⟩ := nextToken_word "class" (.inr rfl) (by decide) (by decide) hafter
      (by rw [hrest, htext]; rfl) hnext
    have hlook : s₁.lookahead.isKeyword "function" = false ∧
        s₁.lookahead.isKeyword "class" = true := by
      rw [Token.isKeyword, Token.isKeyword, hsees.lexeme]
      decide
    rw [hlook.1, hlook.2] at h
    obtain ⟨declaration, s₂, hdeclaration, h⟩ := run_bind h
    cases h
    exact ⟨_, isDeclared_of_isA (.inr rfl) (classBy_yields hrules (.inl rfl) _ _ _ _ hdeclaration),
      rfl⟩

theorem directives_of_keyword {rules : Rules} {s s' : State} {word : String} {head : List Tree}
    (hlexeme : s.lookahead.lexeme = .keyword word) (h : directives rules s = .ok (head, s')) :
    head = [] ∧ s' = s := by
  unfold directives at h
  cases hbudget : rules.budget with
  | zero => rw [hbudget] at h; cases h
  | succ budget =>
      rw [hbudget, directivesFrom] at h
      obtain ⟨token, s₁, hlook, h⟩ := run_bind h
      cases hlook
      rw [hlexeme] at h
      cases h
      exact ⟨rfl, rfl⟩

/-- Behind `export`, the word `default` starts a default export. -/
theorem item_declares {rules : Rules} {s s' : State} {t : Tree} {value : String}
    (hrules : rules.Formed) (hvalue : OpensDeclaration value)
    (hlexeme : s.lookahead.lexeme = .keyword "export")
    (hrest : s.cursor.rest = ' ' :: ("default".toList ++ ' ' :: value.toList))
    (h : item rules s = .ok (t, s')) :
    ∃ declaration, isDeclared declaration = true ∧
      t = .node "ExportDefaultDeclaration" [("declaration", declaration)] := by
  unfold item at h
  obtain ⟨_, s₁, hchange, h⟩ := run_bind h
  cases hchange
  obtain ⟨token, s₁, hlook, h⟩ := run_bind h
  cases hlook
  simp only [hlexeme] at h
  obtain ⟨context, s₁, hcontext, h⟩ := run_bind h
  cases hcontext
  replace h := run_unless (complainAt_yields _ _) h
  unfold exportDeclaration at h
  obtain ⟨context, s₁, hcontext, h⟩ := run_bind h
  cases hcontext
  replace h := run_unless (complain_yields _) h
  obtain ⟨_, s₁, hexpect, h⟩ := run_bind h
  obtain ⟨token, s₂, hnext, hexpect⟩ := run_bind hexpect
  obtain ⟨-, hsees⟩ := @nextToken_word value.toList [' '] _ _ _ ' ' "default" (.inr rfl)
    (by decide) (by decide) (isNamePart_mark (by decide)) (by exact hrest) hnext
  have hsame : s₁ = s₂ := by
    split at hexpect
    · exact (@unexpected_yields _ (fun _ => False) token _ _ _ hexpect).elim
    · cases hexpect; rfl
  subst hsame
  obtain ⟨token, s₃, hlook, h⟩ := run_bind h
  cases hlook
  have hdefault : s₁.lookahead.isKeyword "default" = true := by
    rw [Token.isKeyword, hsees.lexeme]
    decide
  rw [if_pos hdefault] at h
  exact exportDefault_declares hrules hvalue hsees.rest h

/-- What is printed like the default export of a declaration is parsed as one. -/
theorem declares_of_parse {text value : String} {t : Tree} (hvalue : OpensDeclaration value)
    (htext : text = exportWords ++ value) (h : parse .module text = .ok t) :
    isDeclared (defaultExport t) = true := by
  unfold parse parseChars at h
  split at h
  · next tree s' hprogram =>
    cases h
    unfold program at hprogram
    obtain ⟨token, s₁, hnext, h⟩ := run_bind hprogram
    obtain ⟨-, hsees⟩ := @nextToken_word ("default".toList ++ ' ' :: value.toList) [] _ _ _ ' '
      "export" (.inl rfl) (by decide) (by decide) (isNamePart_mark (by decide))
      (by rw [htext]; simp [State.start, Cursor.start, exportWords]) hnext
    obtain ⟨_, s₂, hlast, h⟩ := run_bind h
    cases hlast
    obtain ⟨_, s₂, hgoal, h⟩ := run_bind h
    cases hgoal
    obtain ⟨head, s₂, hhead, h⟩ := run_bind h
    obtain ⟨rfl, rfl⟩ := directives_of_keyword (by exact hsees.lexeme) hhead
    obtain ⟨body, s₃, hbody, h⟩ := run_bind h
    cases h
    have hend : s₁.lookahead.isEnd = false := by
      rw [Token.isEnd, hsees.lexeme]
      decide
    rcases collect_cases hbody with ⟨hstep, rfl⟩ | ⟨first, more, s₄, hstep, rfl⟩
    · obtain ⟨atEnd, s₅, hsees', hstep⟩ := run_bind hstep
      cases hsees'
      rw [hend] at hstep
      obtain ⟨t, s₅, -, hstep⟩ := run_bind hstep
      cases hstep
    · obtain ⟨atEnd, s₅, hsees', hstep⟩ := run_bind hstep
      cases hsees'
      rw [hend] at hstep
      obtain ⟨t, s₅, hitem, hstep⟩ := run_bind hstep
      cases hstep
      obtain ⟨declaration, hdeclared, rfl⟩ := item_declares (rules_formed _) hvalue
        (by exact hsees.lexeme) (by exact hsees.rest) hitem
      exact hdeclared
  · cases h

end Grammar

theorem isKind_of_isProgram {t : Tree} (h : t.isProgram = true) : t.isKind "Program" = true :=
  (Bool.and_eq_true_iff.1 h).1

/-! ## The text changes when it is printed again -/

/-- Is the text of a module one that is parsed, and printed as it is? -/
def IsSettled (text : String) : Prop :=
  ∃ t, Grammar.parse .module text = .ok t ∧ t.render defaultIndent = .ok text

/-- A module that starts with the default export of a value that starts with a function
or a class is printed as a text that, where it is parsed at all, exports a declaration.
If no line of the text ends with a closing brace, it is rejected, or printed in another
way the second time. -/
theorem default_chain_unsettled (source text : String) (t : Tree)
    (hparse : Grammar.parse .module source = .ok t)
    (hchain : isFunctionChain (defaultExport t) = true)
    (hprint : t.render defaultIndent = .ok text) :
    (∀ t', Grammar.parse .module text = .ok t' → isDeclared (defaultExport t') = true) ∧
      (¬ BracesLine text → ¬ IsSettled text) := by
  have hprogram := isKind_of_isProgram (Grammar.isProgram_of_parse hparse)
  obtain ⟨value, hvalue, htext⟩ := render_exportsChain hprogram hchain text hprint
  have hdeclares : ∀ t', Grammar.parse .module text = .ok t' →
      isDeclared (defaultExport t') = true :=
    fun t' hagain => Grammar.declares_of_parse hvalue htext hagain
  refine ⟨hdeclares, ?_⟩
  rintro hlines ⟨t', hagain, hsame⟩
  have hprogram' := isKind_of_isProgram (Grammar.isProgram_of_parse hagain)
  exact hlines (render_declares hprogram' (hdeclares t' hagain) text hsame)

/-- The text a module is printed as, if it is accepted. -/
def printedModule? (source : String) : Option String :=
  (Grammar.parse .module source).toOption.bind fun t => (t.render defaultIndent).toOption

theorem printedModule?_eq_some {source text : String} (h : printedModule? source = some text) :
    ∃ t, Grammar.parse .module source = .ok t ∧ t.render defaultIndent = .ok text := by
  obtain ⟨t, ht, htext⟩ := Option.bind_eq_some_iff.1 h
  exact ⟨t, ok_of_toOption ht, ok_of_toOption htext⟩

set_option maxRecDepth 100000 in
/-- A function that is called at once is printed without its parentheses. -/
theorem default_call_unsettled :
    ∃ t text, Grammar.parse .module "export default (function(a)\x7b\x7d)(1)" = .ok t ∧
      t.render defaultIndent = .ok text ∧ ¬ IsSettled text := by
  have hprinted : printedModule? "export default (function(a)\x7b\x7d)(1)" =
      some "export default function (a) \x7b\x7d(1);\n" := by decide +kernel
  have hchain : ((Grammar.parse .module "export default (function(a)\x7b\x7d)(1)").toOption.map
      fun t => isFunctionChain (defaultExport t)) = some true := by decide +kernel
  obtain ⟨t, hparse, hprint⟩ := printedModule?_eq_some hprinted
  rw [hparse] at hchain
  exact ⟨t, _, hparse, hprint,
    (default_chain_unsettled _ _ t hparse (Option.some.inj hchain) hprint).2 (by decide +kernel)⟩

set_option maxRecDepth 100000 in
/-- A function that is called at once: the call becomes a statement of its own, or the
text is rejected. -/
theorem default_call_changes :
    (∃ text, printedModule? "export default (function(a)\x7b\x7d)(1)" = some text ∧
      printedModule? text = some "export default function (a) \x7b\x7d\n1;\n" ∧
      text = "export default function (a) \x7b\x7d(1);\n") ∧
    ∃ text, printedModule? "export default (function()\x7b\x7d)()" = some text ∧
      (Grammar.parse .module text).toOption = none := by
  refine ⟨⟨"export default function (a) \x7b\x7d(1);\n", ?_, ?_, rfl⟩,
    ⟨"export default function () \x7b\x7d();\n", ?_, ?_⟩⟩
  all_goals decide +kernel

end NameRecovery
