import NameRecovery.Grammar.Program
import NameRecovery.Printer.Program
import NameRecovery.Proofs.Grammar.Yields

/-!
# Printing and parsing again

The printer writes its own parentheses, and it writes none around a statement that
is a text literal.  At the start of a program the text is then read as a directive.

* `Tree.braced` — the tree with a block for every branch before an `else`, which is
  what the printer makes of it;
* `opensWithText` — the program starts with a text literal that is no directive;
* `not_opensWithText_of_parse` — no text that starts with a quote is parsed as such
  a program;
* `render_opens` — such a program is printed with the quote first.
-/

namespace NameRecovery

open Source

/-! ## Branches in braces -/

/-- The statement as a block, unless it is one. -/
def Tree.inBlock (t : Tree) : Tree :=
  if t.isKind "BlockStatement" then t else Grammar.block [t]

mutual

/-- The tree with every branch before an `else` made a block. -/
def Tree.braced : Tree → Tree
  | .list items => .list (bracedItems items)
  | .record fields => .record (bracedFields false fields)
  | .node kind fields =>
    .node kind (bracedFields (kind == "IfStatement" && fields.any isElse) fields)
  | t => t
where
  isElse (field : String × Tree) : Bool := field.1 == "alternate" && !field.2.isNull

/-- The items of a list, with braces. -/
def bracedItems : List Tree → List Tree
  | [] => []
  | item :: rest => item.braced :: bracedItems rest

/-- The fields of a node, with braces.  The first branch is to be a block if
`hasElse`. -/
def bracedFields (hasElse : Bool) : List (String × Tree) → List (String × Tree)
  | [] => []
  | (key, value) :: rest =>
    (key, if hasElse && key == "consequent" then value.braced.inBlock else value.braced) ::
      bracedFields hasElse rest

end

/-- The first of two branches gets braces, the second one does not. -/
example : (Tree.node "IfStatement" [("consequent", .node "EmptyStatement" []),
    ("alternate", .node "EmptyStatement" [])]).braced =
      .node "IfStatement" [("consequent", .node "BlockStatement"
        [("body", .list [.node "EmptyStatement" []])]), ("alternate", .node "EmptyStatement" [])] := by
  cbv

/-! ## Programs that open with a text -/

/-- Is it a text literal, and not an empty one? -/
def isFilledText (t : Tree) : Bool :=
  t.isKind "Literal" &&
    match t.get "raw" with
    | .text raw =>
      match raw.toList with
      | quote :: c :: _ => (quote == '\'' || quote == '"') && c != quote
      | _ => false
    | _ => false

/-- Is it a statement that consists of a text literal and is no directive? -/
def isPlainText (t : Tree) : Bool :=
  t.isKind "ExpressionStatement" && (t.get "directive").isNull &&
    isFilledText (t.get "expression")

/-- Does the program start with a text literal that is no directive? -/
def opensWithText (t : Tree) : Bool :=
  t.isKind "Program" &&
    match t.get "body" with
    | .list (first :: _) => isPlainText first
    | _ => false

/-! ## A text at the start is read as a directive -/

section Scanning

variable {quote ch : Char} {c stop : Cursor}

@[simp] theorem index_advance (c : Cursor) (n : Nat) : (c.advance n).index = c.index + n := rfl

theorem index_le_passLineEnd (c : Cursor) : c.index ≤ c.passLineEnd.index := by
  unfold Cursor.passLineEnd
  split <;> simp [Cursor.newLine]

theorem index_le_bracedEscape {d : Char} (h : bracedEscape c = .ok (d, stop)) :
    c.index ≤ stop.index := by
  unfold bracedEscape at h
  dsimp only at h
  split at h
  · cases h
  · split at h
    · cases h
    · split at h
      · obtain ⟨-, rfl⟩ := Prod.mk.inj (Except.ok.inj h)
        simp only [index_advance]
        omega
      · cases h

theorem index_hexEscape {n : Nat} {code : Option Nat} (h : hexEscape n c = (code, stop)) :
    c.index ≤ stop.index := by
  obtain ⟨-, rfl⟩ := Prod.mk.inj h
  simp

theorem index_le_stringEscape {chars : List Char} {octal : Bool}
    (h : stringEscape c = .ok (chars, octal, stop)) : c.index ≤ stop.index := by
  unfold stringEscape at h
  dsimp only at h
  have hfour := @index_hexEscape (c.advance 1)
  simp only [index_advance] at hfour
  split at h
  · obtain ⟨-, h⟩ := Prod.mk.inj (Except.ok.inj h)
    obtain ⟨-, rfl⟩ := Prod.mk.inj h
    exact index_le_passLineEnd c
  split at h
  · split at h
    · cases hbraced : bracedEscape (c.advance 2) with
      | error e => rw [hbraced] at h; cases h
      | ok r =>
          rw [hbraced] at h
          cases h
          have := index_le_bracedEscape hbraced
          simp only [index_advance] at this
          omega
    · split at h
      · cases h
        have := hfour ‹_›
        omega
      · cases h
  split at h
  · split at h
    · cases h
      have := hfour ‹_›
      omega
    · cases h
  split at h
  · cases h
  split at h
  · cases h
    simp [octalEscape]
  · cases h
    simp

/-- A text literal ends at its quote, or goes on behind the character read. -/
theorem stringBody_step {b : Char} {budget done : List Char} {octal : Bool} {r : List Char × Bool}
    (h : stringBody quote (b :: budget) done octal c = .ok (some r, stop)) :
    (c.rest.head? = some quote ∧ stop = c.advance 1) ∨
      ∃ done octal next, c.index < next.index ∧
        stringBody quote budget done octal next = .ok (some r, stop) := by
  unfold stringBody at h
  split at h
  · cases h
  · -- an escape
    cases hescape : stringEscape (c.advance 1) with
    | error e => rw [hescape] at h; cases h
    | ok found =>
        rw [hescape] at h
        have hbefore := index_le_stringEscape hescape
        rw [index_advance] at hbefore
        exact .inr ⟨_, _, _, by omega, h⟩
  · next hrest =>
    split at h
    · next hquote =>
      cases h
      exact .inl ⟨by simp [hrest, hquote], rfl⟩
    · split at h
      · cases h
      · exact .inr ⟨_, _, _, by simp, h⟩

theorem index_lt_stringBody {budget done : List Char} {octal : Bool} {r : List Char × Bool}
    (h : stringBody quote budget done octal c = .ok (some r, stop)) : c.index < stop.index := by
  induction budget generalizing done octal c with
  | nil => cases h
  | cons b budget ih =>
      rcases stringBody_step h with ⟨-, rfl⟩ | ⟨_, _, next, hnext, hrest⟩
      · simp
      · have hstop := ih hrest
        omega

/-- A text literal whose second character is not its quote has something between its
quotes. -/
theorem raw_of_scanString {rest : List Char} {d : Char} {token : Token}
    (hrest : c.rest = quote :: ch :: d :: rest) (hch : ch ≠ quote)
    (h : scanString c = .ok (token, stop)) :
    (∃ value octal, token.lexeme = .string value octal) ∧
      ∃ inner, token.raw.toList = quote :: ch :: inner ∧ inner ≠ [] := by
  have hpeek : c.peek = quote := by simp [Cursor.peek, hrest]
  have hnext : (c.advance 1).rest = ch :: d :: rest := by simp [Cursor.advance, hrest]
  unfold scanString at h
  rw [hpeek] at h
  cases hbody : stringBody quote (c.rest.drop 1) [] false (c.advance 1) with
  | error e => rw [hbody] at h; cases h
  | ok r =>
      rw [hbody] at h
      obtain ⟨found, after⟩ := r
      cases found with
      | none => cases h
      | some found =>
          cases h
          refine ⟨⟨_, _, rfl⟩, ?_⟩
          have hlong : c.index + 3 ≤ stop.index := by
            rw [hrest, List.drop_one, List.tail_cons] at hbody
            rcases stringBody_step hbody with ⟨hhead, -⟩ | ⟨_, _, next, hafter, hmore⟩
            · rw [hnext] at hhead
              exact absurd (Option.some.inj hhead) hch
            · have hstop := index_lt_stringBody hmore
              rw [index_advance] at hafter
              omega
          obtain ⟨n, hn⟩ : ∃ n, stop.index - c.index = n + 3 := ⟨stop.index - c.index - 3, by omega⟩
          refine ⟨d :: rest.take n, ?_, List.cons_ne_nil _ _⟩
          simp [Token.between, Cursor.textTo, hn, hrest]

/-- At a quote there is no gap. -/
theorem skipGap_quote {rest : List Char} (isModule : Bool) (hquote : quote = '\'' ∨ quote = '"')
    (hrest : c.rest = quote :: rest) : skipGap isModule c = .ok c := by
  unfold skipGap
  rw [hrest, skipGapFrom, hrest]
  rcases hquote with rfl | rfl <;>
    simp [isSpace, isLineEnd, Cursor.sees, hrest]

/-- At a quote stands a text literal. -/
theorem scanToken_quote {rest : List Char} (braces : List Brace)
    (hquote : quote = '\'' ∨ quote = '"') (hrest : c.rest = quote :: rest) :
    scanToken braces c = (do
      let (token, stop) ← scanString c
      return (token, stop, braces)) := by
  have hpeek : c.peek = quote := by simp [Cursor.peek, hrest]
  have hend : c.atEnd = false := by simp [Cursor.atEnd, hrest]
  have hstart : isNameStart quote = false := by
    rcases hquote with rfl | rfl <;> decide +kernel
  unfold scanToken
  simp [hpeek, hend, hstart, hquote]

end Scanning

namespace Grammar

/-- Is the token a text literal with something between its quotes? -/
def HoldsText (token : Token) : Prop :=
  (∃ value octal, token.lexeme = .string value octal) ∧
    ∃ quote ch inner, token.raw.toList = quote :: ch :: inner ∧ inner ≠ []

variable {quote ch d : Char} {rest : List Char}

theorem holdsText_of_nextToken (hquote : quote = '\'' ∨ quote = '"') (hch : ch ≠ quote)
    {token : Token} {s : State}
    (h : nextToken (State.start (quote :: ch :: d :: rest)) = .ok (token, s)) :
    HoldsText s.lookahead := by
  have hrest : (Cursor.start (quote :: ch :: d :: rest)).rest = quote :: ch :: d :: rest := rfl
  unfold nextToken at h
  obtain ⟨start, s₁, hget, h⟩ := run_bind h
  cases hget
  obtain ⟨c, s₂, hgap, h⟩ := run_bind h
  rw [State.start, skipGap_quote _ hquote hrest] at hgap
  cases hgap
  obtain ⟨⟨token, stop, braces⟩, s₃, htoken, h⟩ := run_bind h
  rw [scanToken_quote _ hquote hrest] at htoken
  cases hstring : scanString (Cursor.start (quote :: ch :: d :: rest)) with
  | error e => rw [hstring] at htoken; cases htoken
  | ok r =>
      rw [hstring] at htoken
      cases htoken
      cases h
      obtain ⟨hlexeme, inner, hraw, hinner⟩ := raw_of_scanString hrest hch hstring
      exact ⟨hlexeme, quote, ch, inner, hraw, hinner⟩

/-- Before such a literal stands no statement that is only a text and no directive. -/
theorem not_isPlainText_directive {rules : Rules} {s s' : State} {r : Tree × Option String}
    (hsees : HoldsText s.lookahead) (h : directive rules s = .ok (r, s')) : isPlainText r.1 = false := by
  obtain ⟨-, quote, ch, inner, hraw, hinner⟩ := hsees
  unfold directive at h
  obtain ⟨token, s₁, hlook, h⟩ := run_bind h
  cases hlook
  obtain ⟨expr, s₂, hexpr, h⟩ := run_bind h
  obtain ⟨-, s₃, hend, h⟩ := run_bind h
  have hfilled : (String.ofList (s.lookahead.raw.toList.drop 1).dropLast != "") = true := by
    obtain ⟨d, inner, rfl⟩ := List.exists_cons_of_ne_nil hinner
    rw [hraw]
    simp
  dsimp only at h
  rw [hfilled, Bool.and_true] at h
  split at h
  · -- a literal, which becomes a directive
    cases h
    simp [isPlainText, Tree.isKind, Tree.kind?, Tree.get, Tree.get?, List.lookup_cons, Tree.isNull]
  · next hliteral =>
    cases h
    simp [isPlainText, isFilledText, Tree.get, Tree.get?, List.lookup_cons, hliteral]

/-- What is read first is the first of the directives. -/
theorem directives_head {rules : Rules} {s s' : State} {head : List Tree} {value : String}
    {octal : Bool} (hlexeme : s.lookahead.lexeme = .string value octal)
    (h : directives rules s = .ok (head, s')) :
    ∃ r s₁ more, directive rules s = .ok (r, s₁) ∧ head = r.1 :: more := by
  unfold directives at h
  cases hbudget : rules.budget with
  | zero => rw [hbudget] at h; cases h
  | succ budget =>
      rw [hbudget, directivesFrom] at h
      obtain ⟨token, s₁, hlook, h⟩ := run_bind h
      cases hlook
      rw [hlexeme] at h
      obtain ⟨⟨first, text⟩, s₂, hfirst, h⟩ := run_bind h
      have hcons : ∀ octal, Yields (do return first :: (← directivesFrom rules budget octal))
          fun ts => ∃ more, ts = first :: more := fun octal => .skip fun more => .pure ⟨more, rfl⟩
      suffices hyields : Yields _ fun ts => ∃ more, ts = first :: more by
        obtain ⟨more, hmore⟩ := hyields _ _ _ h
        exact ⟨_, _, more, hfirst, hmore⟩
      dsimp only
      split
      · exact .pure ⟨[], rfl⟩
      · exact .skip fun _ => .skip fun _ => .when fun _ => hcons _
      · exact hcons _

/-- No text that starts with a quote is parsed as a script that opens with a text. -/
theorem not_opensWithText_of_parse {text : String} {t : Tree}
    (htext : text.toList = quote :: ch :: d :: rest) (hquote : quote = '\'' ∨ quote = '"')
    (hch : ch ≠ quote) (h : parse .script text = .ok t) : opensWithText t = false := by
  unfold parse parseChars at h
  split at h
  · next tree s' hprogram =>
    cases h
    unfold program at hprogram
    obtain ⟨token, s₁, hnext, h⟩ := run_bind hprogram
    rw [htext] at hnext
    obtain ⟨u, s₂, hlast, h⟩ := run_bind h
    have htoken := holdsText_of_nextToken hquote hch hnext
    have hsees : HoldsText s₂.lookahead := by cases hlast; exact htoken
    obtain ⟨head, s₃, hhead, h⟩ := run_bind h
    obtain ⟨body, s₄, hbody, h⟩ := run_bind h
    obtain ⟨value, octal, hlexeme⟩ := hsees.1
    obtain ⟨r, s₅, more, hfirst, rfl⟩ := directives_head hlexeme hhead
    have hplain := not_isPlainText_directive hsees hfirst
    cases h
    simp [opensWithText, Tree.get, Tree.get?, List.lookup_cons, hplain]
  · cases h

end Grammar

/-! ## What is printed first -/

section Printing

variable {indent : String} {t : Tree}

/-- A literal is printed as it is spelled. -/
theorem expressionAt_literal (rules : Printer.Rules) (level : Nat)
    (fields : List (String × Tree)) :
    rules.expressionAt ⟨level, false⟩ Printer.sequenceLevel (.node "Literal" fields) =
      .ok (Printer.literal (.node "Literal" fields)) := by
  rfl

theorem eq_node_of_isKind {kind : String} (h : t.isKind kind = true) :
    ∃ fields, t = .node kind fields := by
  cases t <;> simp_all [Tree.isKind, Tree.kind?]

theorem literal_filledText (ht : isFilledText t = true) :
    ∃ quote ch rest, (Printer.literal t).toList = quote :: ch :: rest ∧
      (quote = '\'' ∨ quote = '"') ∧ ch ≠ quote := by
  obtain ⟨raw, hraw, hchars⟩ : ∃ raw, t.get "raw" = .text raw ∧
      ∃ quote ch rest, raw.toList = quote :: ch :: rest ∧
        (quote = '\'' ∨ quote = '"') ∧ ch ≠ quote := by
    simp only [isFilledText, Bool.and_eq_true] at ht
    obtain ⟨-, ht⟩ := ht
    split at ht
    · next raw hraw =>
      refine ⟨raw, hraw, ?_⟩
      split at ht
      · next quote ch rest hchars =>
        simp only [Bool.and_eq_true, Bool.or_eq_true, beq_iff_eq, bne_iff_ne] at ht
        exact ⟨quote, ch, rest, hchars, ht⟩
      · cases ht
    · cases ht
  unfold Printer.literal
  rw [hraw]
  exact hchars

/-- A text that starts with a quote is no ambiguous start of a statement. -/
theorem isAmbiguousStart_quote {text : String} {quote : Char} {rest : List Char}
    (htext : text.toList = quote :: rest) (hquote : quote = '\'' ∨ quote = '"') :
    Printer.isAmbiguousStart text = false := by
  rcases hquote with rfl | rfl <;>
    simp [Printer.isAmbiguousStart, Printer.startsWithWord, htext]

theorem need_of_get {kind key : String} {fields : List (String × Tree)} {value : Tree}
    (h : (Tree.node kind fields).get key = value) (hvalue : value.isNull = false) :
    (Tree.node kind fields).need key = .ok value := by
  unfold Tree.need
  unfold Tree.get at h
  cases hfound : (Tree.node kind fields).get? key with
  | none =>
      rw [hfound] at h
      rw [← h] at hvalue
      cases hvalue
  | some found =>
      rw [hfound] at h
      rw [← h]
      rfl

/-- A text as a statement is printed as it is spelled, with a semicolon. -/
theorem statement_plainText {depth : Nat} {text : String} (ht : isPlainText t = true)
    (h : (Printer.rules indent (depth + 2)).statement 0 t = .ok text) :
    ∃ quote ch rest, text.toList = quote :: ch :: rest ++ [';'] ∧
      (quote = '\'' ∨ quote = '"') ∧ ch ≠ quote := by
  simp only [isPlainText, Bool.and_eq_true] at ht
  obtain ⟨⟨hkind, -⟩, hfilled⟩ := ht
  obtain ⟨fields, rfl⟩ := eq_node_of_isKind hkind
  obtain ⟨inner, hinner⟩ : ∃ inner,
      (Tree.node "ExpressionStatement" fields).get "expression" = .node "Literal" inner := by
    simp only [isFilledText, Bool.and_eq_true] at hfilled
    exact eq_node_of_isKind hfilled.1
  rw [hinner] at hfilled
  obtain ⟨quote, ch, rest, hchars, hquote, hch⟩ := literal_filledText hfilled
  have hpart : (Printer.rules indent (depth + 1)).part 0 (.node "ExpressionStatement" fields)
      "expression" = .ok (Printer.literal (.node "Literal" inner)) := by
    unfold Printer.Rules.part
    rw [need_of_get hinner rfl]
    exact expressionAt_literal (Printer.rules indent depth) 0 inner
  change (Printer.rules indent (depth + 1)).expressionStatement 0
    (.node "ExpressionStatement" fields) = .ok text at h
  unfold Printer.Rules.expressionStatement at h
  rw [hpart] at h
  change Except.ok ((if Printer.isAmbiguousStart (Printer.literal (.node "Literal" inner)) then _
    else Printer.literal (.node "Literal" inner)) ++ ";") = .ok text at h
  rw [isAmbiguousStart_quote hchars hquote] at h
  cases h
  exact ⟨quote, ch, rest, by simp [hchars], hquote, hch⟩

theorem render_program {fields : List (String × Tree)} {first : Tree} {more : List Tree}
    (h : (Tree.node "Program" fields).get "body" = .list (first :: more)) :
    (Tree.node "Program" fields).render indent = (do
      let rules := Printer.rules indent ((Tree.node "Program" fields).depth + 2)
      let line ← rules.statement 0 first
      let lines ← Printer.each (rules.statement 0) more
      return String.intercalate "\n" (line :: lines) ++ "\n") := by
  unfold Tree.render
  rw [h]
  change (do
    let lines ← Printer.each _ (first :: more)
    return String.intercalate "\n" lines ++ "\n" : Except Fault String) = _
  simp [Printer.each]

/-- A program that opens with a text is printed with the quote first. -/
theorem render_opens {text : String} (ht : opensWithText t = true)
    (h : t.render indent = .ok text) :
    ∃ quote ch d rest, text.toList = quote :: ch :: d :: rest ∧
      (quote = '\'' ∨ quote = '"') ∧ ch ≠ quote := by
  simp only [opensWithText, Bool.and_eq_true] at ht
  obtain ⟨hkind, hbody⟩ := ht
  obtain ⟨fields, rfl⟩ := eq_node_of_isKind hkind
  split at hbody
  · next first more hbodies =>
    rw [render_program hbodies] at h
    dsimp only at h
    cases hfirst : (Printer.rules indent ((Tree.node "Program" fields).depth + 2)).statement 0
        first with
    | error e => rw [hfirst] at h; cases h
    | ok line =>
        rw [hfirst] at h
        cases hmore : Printer.each ((Printer.rules indent
            ((Tree.node "Program" fields).depth + 2)).statement 0) more with
        | error e => rw [hmore] at h; cases h
        | ok lines =>
            rw [hmore] at h
            cases h
            obtain ⟨quote, ch, rest, hline, hquote, hch⟩ := statement_plainText hbody hfirst
            obtain ⟨d, rest, hd⟩ : ∃ d more, rest ++ [';'] = d :: more :=
              List.exists_cons_of_ne_nil (by simp)
            have hhead : String.intercalate "\n" (line :: lines) =
                line ++ String.intercalate "\n" ("" :: lines) := by
              rw [← String.intercalate_cons_append, String.append_empty]
            refine ⟨quote, ch, d, rest ++ (String.intercalate "\n" ("" :: lines) ++ "\n").toList,
              ?_, hquote, hch⟩
            simp [hhead, hline, hd]
  · cases hbody

end Printing

/-! ## The text does not come back -/

theorem lookup_bracedFields (key : String) (fields : List (String × Tree)) :
    (bracedFields false fields).lookup key = (fields.lookup key).map Tree.braced := by
  induction fields with
  | nil => rfl
  | cons field rest ih =>
      obtain ⟨k, value⟩ := field
      rw [bracedFields, List.lookup_cons, List.lookup_cons]
      split
      · rfl
      · exact ih

theorem braced_node {kind : String} (hkind : kind ≠ "IfStatement")
    (fields : List (String × Tree)) :
    (Tree.node kind fields).braced = .node kind (bracedFields false fields) := by
  rw [Tree.braced, beq_eq_false_iff_ne.2 hkind, Bool.false_and]

theorem get_braced {kind key : String} (hkind : kind ≠ "IfStatement")
    (fields : List (String × Tree)) :
    (Tree.node kind fields).braced.get key = ((Tree.node kind fields).get key).braced := by
  rw [braced_node hkind]
  unfold Tree.get Tree.get?
  dsimp only
  split
  · simp [Tree.braced]
  · rw [lookup_bracedFields]
    cases fields.lookup key <;> simp [Tree.braced]

@[simp] theorem isKind_braced (kind : String) (t : Tree) :
    t.braced.isKind kind = t.isKind kind := by
  cases t <;> simp [Tree.braced, Tree.isKind, Tree.kind?]

@[simp] theorem isNull_braced (t : Tree) : t.braced.isNull = t.isNull := by
  cases t <;> simp [Tree.braced, Tree.isNull]

theorem isFilledText_braced {t : Tree} (h : isFilledText t = true) :
    isFilledText t.braced = true := by
  simp only [isFilledText, Bool.and_eq_true] at h
  obtain ⟨hkind, hraw⟩ := h
  obtain ⟨fields, rfl⟩ := eq_node_of_isKind hkind
  rw [isFilledText, isKind_braced, hkind, get_braced (by decide)]
  split at hraw
  · next raw hget =>
    rw [hget]
    simpa [Tree.braced] using hraw
  · cases hraw

theorem isPlainText_braced {t : Tree} (h : isPlainText t = true) :
    isPlainText t.braced = true := by
  simp only [isPlainText, Bool.and_eq_true] at h
  obtain ⟨⟨hkind, hdirective⟩, hfilled⟩ := h
  obtain ⟨fields, rfl⟩ := eq_node_of_isKind hkind
  rw [isPlainText, isKind_braced, hkind, get_braced (by decide), get_braced (by decide),
    isNull_braced, hdirective, isFilledText_braced hfilled]
  rfl

/-- Braces do not hide the text a program opens with. -/
theorem opensWithText_braced {t : Tree} (h : opensWithText t = true) :
    opensWithText t.braced = true := by
  simp only [opensWithText, Bool.and_eq_true] at h
  obtain ⟨hkind, hbody⟩ := h
  obtain ⟨fields, rfl⟩ := eq_node_of_isKind hkind
  rw [opensWithText, isKind_braced, hkind, get_braced (by decide)]
  split at hbody
  · next first more hget =>
    rw [hget]
    simpa [Tree.braced, bracedItems] using isPlainText_braced hbody
  · cases hbody

/-- A script that opens with a text that is no directive does not come back: where the
text it is printed as is parsed at all, it is parsed as another program. -/
theorem reparse_loses_text (source text : String) (t : Tree)
    (_ : Grammar.parse .script source = .ok t) (hopen : opensWithText t = true)
    (hprint : t.render defaultIndent = .ok text) :
    Grammar.parse .script text ≠ .ok t.braced := by
  intro hparse
  obtain ⟨quote, ch, d, rest, htext, hquote, hch⟩ := render_opens hopen hprint
  have hnot := Grammar.not_opensWithText_of_parse htext hquote hch hparse
  rw [opensWithText_braced hopen] at hnot
  cases hnot

set_option maxRecDepth 100000 in
/-- Parentheses around a directive are left out, and the statement becomes one. -/
theorem reparse_loses_strict : ∃ t, Grammar.parse .script "('use strict')" = .ok t ∧
    t.render defaultIndent = .ok "'use strict';\n" ∧
    Grammar.parse .script "'use strict';\n" ≠ .ok t.braced := by
  obtain ⟨t, ht⟩ : ∃ t, (Grammar.parse .script "('use strict')").toOption = some t :=
    Option.isSome_iff_exists.1 (by decide +kernel)
  have hopen : ((Grammar.parse .script "('use strict')").toOption.map opensWithText) = some true := by
    decide +kernel
  have hprint : ((Grammar.parse .script "('use strict')").toOption.bind fun t =>
      (t.render defaultIndent).toOption) = some "'use strict';\n" := by
    decide +kernel
  rw [ht] at hopen hprint
  have hparse := ok_of_toOption ht
  have hrender := ok_of_toOption hprint
  exact ⟨t, hparse, hrender,
    reparse_loses_text _ _ t hparse (Option.some.inj hopen) hrender⟩

/-- Is the script printed as a text that is no script? -/
def PrintsNonsense (source : String) : Prop :=
  ∃ t text, Grammar.parse .script source = .ok t ∧ t.render defaultIndent = .ok text ∧
    ∀ t', Grammar.parse .script text ≠ .ok t'

theorem printsNonsense_of_run {source text : String}
    (hprint : ((Grammar.parse .script source).toOption.bind fun t =>
      (t.render defaultIndent).toOption) = some text)
    (hparse : (Grammar.parse .script text).toOption.isNone = true) : PrintsNonsense source := by
  obtain ⟨t, ht, htext⟩ := Option.bind_eq_some_iff.1 hprint
  refine ⟨t, text, ok_of_toOption ht, ok_of_toOption htext, ?_⟩
  intro t' ht'
  rw [ht'] at hparse
  cases hparse

set_option maxRecDepth 100000 in
/-- Parentheses around the name `let` or `async` at the start of a loop head, and brackets
around the key of an asynchronous method, are left out although they are needed. -/
theorem reparse_rejects :
    PrintsNonsense "for ((let) of x);" ∧ PrintsNonsense "for ((async) of x);" ∧
      PrintsNonsense "class A \x7b async [a.b]() \x7b\x7d \x7d" := by
  have hlet := @printsNonsense_of_run "for ((let) of x);" "for (let of x) ;\n"
    (by decide +kernel) (by decide +kernel)
  have hasync := @printsNonsense_of_run "for ((async) of x);" "for (async of x) ;\n"
    (by decide +kernel) (by decide +kernel)
  have hmethod := @printsNonsense_of_run "class A \x7b async [a.b]() \x7b\x7d \x7d"
    "class A \x7b\n  async a.b() \x7b\x7d\n\x7d\n" (by decide +kernel) (by decide +kernel)
  exact ⟨hlet, hasync, hmethod⟩

end NameRecovery
