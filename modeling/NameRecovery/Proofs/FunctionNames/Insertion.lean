import NameRecovery.Proofs.FunctionNames.Heads
import NameRecovery.Proofs.Grammar.Yields
import NameRecovery.Proofs.Pipeline

/-!
# Names are inserted once

The two passes over a text find the heads in it from left to right, each pass those with its
mark.  What a pass writes makes no head that was not there, neither in itself nor with its
surroundings, so that both passes work on one split of the text, and find nothing more when
they are repeated.

* `Split` — a text in the heads that are found and the characters between them;
* `starts_of_written` — names that are inserted make no new heads;
* `Split.pass_written` — what a pass does to the heads of a split;
* `nameAll_only_inserts` — names are inserted, and inserted once;
* `naming_changes_literal`, `naming_captures_free`, `digit_separator_breaks_output` — neither
  literals, nor the names around, nor how the new name starts is looked at.
-/

namespace NameRecovery.FunctionNames

open Text

/-! ## The heads in a text -/

/-- A text in its heads and the characters that belong to none, found from left to right. -/
inductive Split : List Char → List (Char ⊕ Head) → Prop
  | ended : Split [] []
  | kept {c : Char} {cs : List Char} {parts : List (Char ⊕ Head)}
      (none_starts : ∀ h : Head, ¬ h.text <+: c :: cs) (rest : Split cs parts) :
      Split (c :: cs) (.inl c :: parts)
  | found {h : Head} {cs : List Char} {parts : List (Char ⊕ Head)} (rest : Split cs parts) :
      Split (h.text ++ cs) (.inr h :: parts)

/-- The parts of a text, with the heads as they are given. -/
def written (shape : Head → List Char) (parts : List (Char ⊕ Head)) : List Char :=
  parts.flatMap (Sum.elim (fun c => [c]) shape)

section Written

variable {shape : Head → List Char} {parts : List (Char ⊕ Head)}

@[simp]
theorem written_nil : written shape [] = [] :=
  rfl

@[simp]
theorem written_kept {c : Char} : written shape (.inl c :: parts) = c :: written shape parts :=
  rfl

@[simp]
theorem written_found {h : Head} :
    written shape (.inr h :: parts) = shape h ++ written shape parts :=
  rfl

end Written

namespace Head

theorem text_ne_nil (h : Head) : h.text ≠ [] :=
  List.append_ne_nil_of_right_ne_nil _ (List.cons_ne_nil _ _)

/-- No head starts with a parenthesis. -/
theorem not_starts_paren (h : Head) (rest : List Char) : ¬ h.text <+: '(' :: rest := by
  intro hfirst
  rw [← List.nil_append ('(' :: rest)] at hfirst
  have hnil : h.front = [] := upTo_unique h.paren_not_mem_front List.not_mem_nil hfirst
  exact h.name_ne_nil (List.append_eq_nil_iff.1 hnil).1

end Head

namespace Split

variable {cs : List Char} {parts : List (Char ⊕ Head)}

/-- The parts of a text make it up. -/
theorem written_text (hsplit : Split cs parts) : written Head.text parts = cs := by
  induction hsplit with
  | ended => rfl
  | kept _ _ ih => rw [written_kept, ih]
  | found _ ih => rw [written_found, ih]

theorem exists_parts (cs : List Char) : ∃ parts, Split cs parts := by
  induction hsize : cs.length using Nat.strong_induction_on generalizing cs with
  | _ size ih =>
      subst hsize
      by_cases hstarts : ∃ h : Head, h.text <+: cs
      · obtain ⟨h, rest, rfl⟩ := hstarts
        have hpos := List.length_pos_iff.2 h.text_ne_nil
        obtain ⟨parts, hparts⟩ := ih rest.length (by rw [List.length_append]; omega) rest rfl
        exact ⟨_, hparts.found⟩
      · cases cs with
        | nil => exact ⟨[], .ended⟩
        | cons c cs =>
            obtain ⟨parts, hparts⟩ := ih cs.length (Nat.lt_succ_self _) cs rfl
            exact ⟨_, hparts.kept (not_exists.1 hstarts)⟩

/-- There is only one way to find the heads. -/
theorem unique {other : List (Char ⊕ Head)} (hsplit : Split cs parts) (hother : Split cs other) :
    parts = other := by
  induction hsplit generalizing other with
  | ended =>
      generalize hcs : [] = cs at hother
      cases hother with
      | ended => rfl
      | kept => cases hcs
      | found => exact absurd (List.append_eq_nil_iff.1 hcs.symm).1 (Head.text_ne_nil _)
  | @kept c cs parts hnone _ ih =>
      generalize hcs : c :: cs = text at hother
      cases hother with
      | ended => cases hcs
      | kept _ hrest =>
          obtain ⟨rfl, rfl⟩ := List.cons.inj hcs
          rw [ih hrest]
      | @found h => exact absurd (hcs ▸ List.prefix_append _ _) (hnone h)
  | @found h rest parts _ ih =>
      generalize hcs : h.text ++ rest = text at hother
      cases hother with
      | ended => exact absurd (List.append_eq_nil_iff.1 hcs).1 h.text_ne_nil
      | kept hnone => exact absurd (hcs ▸ List.prefix_append _ _) (hnone h)
      | found hrest =>
          obtain rfl := Head.eq_of_text (hcs ▸ List.prefix_append h.text rest)
          rw [ih (List.append_cancel_left hcs ▸ hrest)]

end Split

/-! ## Passes over a text -/

/-- Can the sigil stand in front of a name without making a head? -/
def IsHarmless (sigil : List Char) : Prop :=
  ∀ c ∈ sigil, isMark c = false ∧ c ≠ '('

namespace Head

variable {sigil : List Char} {done : Mark → Bool}

/-- The head up to its parenthesis, when those with the given marks have got their names. -/
def frontAt (sigil : List Char) (done : Mark → Bool) (h : Head) : List Char :=
  if done h.mark then h.namedFront sigil else h.front

/-- The head when those with the given marks have got their names. -/
def textAt (sigil : List Char) (done : Mark → Bool) (h : Head) : List Char :=
  h.frontAt sigil done ++ ['(']

theorem frontAt_of_done {h : Head} (hdone : done h.mark = true) :
    h.frontAt sigil done = h.namedFront sigil :=
  if_pos hdone

theorem frontAt_of_not_done {h : Head} (hdone : done h.mark = false) :
    h.frontAt sigil done = h.front :=
  if_neg (Bool.eq_false_iff.1 hdone)

theorem paren_not_mem_frontAt (hsigil : IsHarmless sigil) (h : Head) :
    '(' ∉ h.frontAt sigil done := by
  cases hdone : done h.mark with
  | true =>
      rw [frontAt_of_done hdone]
      exact h.paren_not_mem_namedFront fun hc => (hsigil _ hc).2 rfl
  | false =>
      rw [frontAt_of_not_done hdone]
      exact h.paren_not_mem_front

/-- Where a head ends, none has got its name. -/
theorem not_done_of_ends (hsigil : IsHarmless sigil) {h g : Head} (cs ds : List Char)
    (hends : cs ++ g.front = ds ++ h.frontAt sigil done) : done h.mark = false := by
  rw [Bool.eq_false_iff]
  intro hdone
  rw [frontAt_of_done hdone] at hends
  exact not_ends_named (fun c hc => (hsigil c hc).1) _ _ hends

/-- A head that ends where another one ends has its mark. -/
theorem mark_of_ends {h g : Head} {cs : List Char} (hends : cs ++ g.front = h.front) :
    g.mark = h.mark := by
  have hmem : g.mark.char ∈ h.front := by
    rw [← hends]
    simp [front]
  exact Mark.char_inj.1 (mark_of_mem_front hmem g.mark.char_apart.2.2.1)

end Head

/-- Names that are inserted make no new heads: a head that starts where some of them are inserted
starts there without them. -/
theorem starts_of_written {sigil : List Char} {done : Mark → Bool} (hsigil : IsHarmless sigil)
    {g : Head} {before : List Char} (hbefore : '(' ∉ before) {parts : List (Char ⊕ Head)}
    (hstarts : g.text <+: before ++ written (Head.textAt sigil done) parts) :
    g.text <+: before ++ written Head.text parts := by
  -- The head ends at the first parenthesis behind `before`, in a character or in a head.
  induction parts generalizing before with
  | nil => exact hstarts
  | cons part parts ih =>
      cases part with
      | inl c =>
          rw [written_kept] at hstarts ⊢
          by_cases hc : c = '('
          · subst hc
            rw [Head.text, upTo_unique g.paren_not_mem_front hbefore hstarts]
            exact ⟨_, List.append_assoc _ _ _⟩
          · rw [List.append_cons] at hstarts ⊢
            refine ih ?_ hstarts
            simp [hbefore, Ne.symm hc]
      | inr h =>
          have hparen : '(' ∉ h.frontAt sigil done := h.paren_not_mem_frontAt hsigil
          rw [written_found, Head.textAt, List.append_assoc, List.singleton_append,
            ← List.append_assoc] at hstarts
          have hfront : g.front = before ++ h.frontAt sigil done :=
            upTo_unique g.paren_not_mem_front (by simp [hbefore, hparen]) hstarts
          have hdone : done h.mark = false := Head.not_done_of_ends hsigil [] before hfront
          have htext : before ++ h.text = g.text := by
            rw [Head.text, Head.text, hfront, Head.frontAt_of_not_done hdone, List.append_assoc]
          rw [written_found, ← List.append_assoc, htext]
          exact List.prefix_append _ _

/-- The text with a name for every function behind a name and the mark. -/
def pass (sigil : String) (m : Mark) (cs : List Char) : List Char :=
  nameBehind m.char m.spaced sigil cs

theorem toList_nameAll (sigil text : String) :
    (nameAll sigil text).toList = pass sigil .property (pass sigil .assign text.toList) :=
  String.toList_ofList

section Pass

variable {sigil : String} {m : Mark}

theorem pass_kept {c : Char} {cs : List Char}
    (hnone : ∀ h : Head, h.mark = m → ¬ h.text <+: c :: cs) :
    pass sigil m (c :: cs) = c :: pass sigil m cs :=
  replaceAll_skip (head?_eq_none_iff.2 hnone)

/-- A head with the mark gets its name. -/
theorem pass_head (h : Head) (rest : List Char) :
    pass sigil h.mark (h.text ++ rest) = h.named sigil.toList ++ pass sigil h.mark rest := by
  have hfound := head?_text h rest
  obtain ⟨c, cs, htext⟩ := List.exists_cons_of_ne_nil h.text_ne_nil
  rw [htext, List.cons_append] at hfound ⊢
  rw [pass, nameBehind, replaceAll_match hfound, List.length_cons, Nat.add_sub_cancel,
    List.drop_left]
  simp [Head.named, Head.namedFront, Head.opening, pass, nameBehind]

/-- A text up to a parenthesis stays if no head with the mark ends there. -/
theorem pass_front {front : List Char} (hparen : '(' ∉ front)
    (hnone : ∀ (h : Head) (before : List Char), h.mark = m → before ++ h.front ≠ front)
    (rest : List Char) :
    pass sigil m (front ++ '(' :: rest) = front ++ '(' :: pass sigil m rest := by
  induction front with
  | nil => exact pass_kept fun h _ => h.not_starts_paren rest
  | cons c front ih =>
      have hkept : ∀ h : Head, h.mark = m → ¬ h.text <+: c :: (front ++ '(' :: rest) :=
        fun h hmark hstarts =>
          hnone h [] hmark (upTo_unique h.paren_not_mem_front hparen hstarts)
      rw [List.cons_append, pass_kept hkept, List.cons_append,
        ih (List.not_mem_of_not_mem_cons hparen)]
      intro h before hmark hends
      exact hnone h (c :: before) hmark (by rw [List.cons_append, hends])

/-- A head gets its name from the pass for its mark, unless it has got it before. -/
theorem pass_textAt {done : Mark → Bool} (hsigil : IsHarmless sigil.toList) (h : Head)
    (rest : List Char) :
    pass sigil m (h.textAt sigil.toList done ++ rest) =
      h.textAt sigil.toList (Function.update done m true) ++ pass sigil m rest := by
  by_cases hhere : h.mark = m ∧ done h.mark = false
  · obtain ⟨rfl, hdone⟩ := hhere
    have hnow : Function.update done h.mark true h.mark = true := Function.update_self _ _ _
    have hbefore : h.textAt sigil.toList done = h.text := by
      rw [Head.textAt, Head.frontAt_of_not_done hdone, Head.text]
    have hafter : h.textAt sigil.toList (Function.update done h.mark true) =
        h.named sigil.toList := by
      rw [Head.textAt, Head.frontAt_of_done hnow, Head.named]
    rw [hbefore, hafter, pass_head]
  · have hsame : Function.update done m true h.mark = done h.mark := by
      by_cases hmark : h.mark = m
      · have hdone : done h.mark = true := by simpa [hmark] using hhere
        rw [hdone, hmark, Function.update_self]
      · exact Function.update_of_ne hmark _ _
    have htext : h.textAt sigil.toList (Function.update done m true) =
        h.textAt sigil.toList done := by
      rw [Head.textAt, Head.frontAt, hsame, ← Head.frontAt, ← Head.textAt]
    -- A head that ends here would have this mark, and no name would have been inserted here.
    have hnone : ∀ (g : Head) (before : List Char), g.mark = m →
        before ++ g.front ≠ h.frontAt sigil.toList done := by
      intro g before hmark hends
      have hdone : done h.mark = false := Head.not_done_of_ends hsigil before [] hends
      rw [Head.frontAt_of_not_done hdone] at hends
      exact hhere ⟨(Head.mark_of_ends hends).symm.trans hmark, hdone⟩
    rw [htext, Head.textAt, List.append_assoc, List.singleton_append,
      pass_front (h.paren_not_mem_frontAt hsigil) hnone, List.append_assoc, List.singleton_append]

end Pass

namespace Split

variable {sigil : String} {done : Mark → Bool} {cs : List Char} {parts : List (Char ⊕ Head)}

/-- A pass gives the heads with its mark their names, whichever have got them before. -/
theorem pass_written (hsigil : IsHarmless sigil.toList) (hsplit : Split cs parts) (m : Mark) :
    pass sigil m (written (Head.textAt sigil.toList done) parts) =
      written (Head.textAt sigil.toList (Function.update done m true)) parts := by
  induction hsplit with
  | ended => rfl
  | @kept c cs parts hnone hrest ih =>
      rw [written_kept, written_kept, pass_kept, ih]
      intro h _ hstarts
      refine hnone h ?_
      rw [← written_kept, ← List.nil_append (written _ _)] at hstarts
      have hplain := starts_of_written hsigil List.not_mem_nil hstarts
      rwa [List.nil_append, written_kept, hrest.written_text] at hplain
  | found _ ih => rw [written_found, written_found, pass_textAt hsigil, ih]

/-- Two passes give all heads their names, whichever have got them before. -/
theorem passes_written (hsigil : IsHarmless sigil.toList) (hsplit : Split cs parts) :
    pass sigil .property (pass sigil .assign (written (Head.textAt sigil.toList done) parts)) =
      written (Head.named sigil.toList) parts := by
  rw [hsplit.pass_written hsigil, hsplit.pass_written hsigil]
  congr 1
  funext h
  rw [Head.textAt, Head.frontAt_of_done, Head.named]
  cases h.mark <;> simp

end Split

/-! ## White space -/

/-- The text without its white space. -/
def solid (cs : List Char) : List Char :=
  cs.filter fun c => !isBlank c

theorem solid_append (cs ds : List Char) : solid (cs ++ ds) = solid cs ++ solid ds :=
  List.filter_append ..

theorem solid_blanks {gap : List Char} (hgap : ∀ c ∈ gap, isBlank c = true) : solid gap = [] := by
  rw [solid, List.filter_eq_nil_iff]
  intro c hc
  simp [hgap c hc]

/-- A head differs from what is written without its name in white space only. -/
theorem Head.solid_unnamed (h : Head) : solid h.unnamed = solid h.text := by
  have hmark (cs : List Char) :
      solid (h.mark.char :: cs) = solid h.mark.spaced.toList ++ solid cs := by
    cases h.mark <;> rfl
  have hword : solid "function ".toList = solid "function".toList := by decide
  simp only [Head.unnamed, Head.opening, Head.text, Head.front, solid_append, hmark, hword,
    solid_blanks h.before_blank, solid_blanks h.after_blank, solid_blanks h.inner_blank,
    List.append_nil, List.nil_append, List.append_assoc]

theorem solid_written_unnamed (parts : List (Char ⊕ Head)) :
    solid (written Head.unnamed parts) = solid (written Head.text parts) := by
  induction parts with
  | nil => rfl
  | cons part parts ih =>
      cases part with
      | inl c =>
          rw [written_kept, written_kept, ← List.singleton_append, solid_append, ih, ← solid_append,
            List.singleton_append]
      | inr h => rw [written_found, written_found, solid_append, solid_append, h.solid_unnamed, ih]

/-! ## Naming once -/

/-- Names are inserted once, and nothing else is done to a text but to its white space: the text
falls in one way into heads and characters that belong to none, the heads get the sigil and
their names, and without these the text is the old one up to white space.  The sigil may have
any characters but the marks and the parenthesis, so any that names consist of. -/
theorem nameAll_only_inserts (sigil text : String)
    (hsigil : ∀ c ∈ sigil.toList, isMark c = false ∧ c ≠ '(') :
    nameAll sigil (nameAll sigil text) = nameAll sigil text ∧
      ∃ parts, (∀ other, Split text.toList other ↔ other = parts) ∧
        (nameAll sigil text).toList = written (Head.named sigil.toList) parts ∧
        solid (written Head.unnamed parts) = solid text.toList := by
  obtain ⟨parts, hsplit⟩ := Split.exists_parts text.toList
  have hplain : written (Head.textAt sigil.toList fun _ => false) parts = text.toList :=
    hsplit.written_text
  have hnamed : (nameAll sigil text).toList = written (Head.named sigil.toList) parts := by
    rw [toList_nameAll, ← hplain, hsplit.passes_written hsigil]
  have hagain : (nameAll sigil (nameAll sigil text)).toList =
      written (Head.named sigil.toList) parts := by
    have hdone : Head.named sigil.toList = Head.textAt sigil.toList fun _ => true := rfl
    rw [toList_nameAll, hnamed, hdone, hsplit.passes_written hsigil, hdone]
  refine ⟨String.toList_inj.1 (hagain.trans hnamed.symm), parts, fun other => ⟨?_, ?_⟩, hnamed, ?_⟩
  · exact fun hother => hother.unique hsplit
  · rintro rfl
    exact hsplit
  · rw [solid_written_unnamed, hsplit.written_text]

/-- Both marks get their names with the sigil behind them, and a function with a name keeps it. -/
theorem nameAll_only_inserts_marks :
    (∀ c ∈ "$".toList, isMark c = false ∧ c ≠ '(') ∧
      nameAll "$" "a=function(b\t:\nfunction (d = function d(" =
        "a = function $a(b: function $b(d = function d(" ∧
      nameAll "$" (nameAll "$" "a=function(b\t:\nfunction (d = function d(") =
        nameAll "$" "a=function(b\t:\nfunction (d = function d(" ∧
      ∃ parts, (∀ other, Split "a=function(b\t:\nfunction (d = function d(".toList other ↔
          other = parts) ∧
        (nameAll "$" "a=function(b\t:\nfunction (d = function d(").toList =
          written (Head.named "$".toList) parts ∧
        solid (written Head.unnamed parts) =
          solid "a=function(b\t:\nfunction (d = function d(".toList :=
  ⟨by simp [isMark], by decide +kernel, nameAll_only_inserts _ _ (by simp [isMark])⟩

/-! ## What naming does not look at -/

/-- The spelling of the literal that is assigned in the first statement. -/
def assignedRaw (t : Tree) : Option String := do
  let items ← (t.get "body").items.toOption
  let statement ← items.head?
  (((statement.get "expression").get "right").get "raw").text?

set_option maxRecDepth 100000 in
/-- A text literal that looks like the head of a function does not keep its spelling. -/
theorem naming_changes_literal : ∃ t t',
    Grammar.parse .script "s = 'a = function (';\n" = .ok t ∧
      t.render defaultIndent = .ok "s = 'a = function (';\n" ∧
      nameAll "$" "s = 'a = function (';\n" = "s = 'a = function $a(';\n" ∧
      Grammar.parse .script "s = 'a = function $a(';\n" = .ok t' ∧
      assignedRaw t = some "'a = function ('" ∧ assignedRaw t' = some "'a = function $a('" := by
  have hbefore : (Grammar.parse .script "s = 'a = function (';\n").toOption.map
      (fun t => ((t.render defaultIndent).toOption, assignedRaw t)) =
        some (some "s = 'a = function (';\n", some "'a = function ('") := by
    decide +kernel
  have hafter : (Grammar.parse .script "s = 'a = function $a(';\n").toOption.map assignedRaw =
      some (some "'a = function $a('") := by
    decide +kernel
  obtain ⟨t, hparse, hpair⟩ := Option.map_eq_some_iff.1 hbefore
  obtain ⟨hrender, hraw⟩ := Prod.mk.inj hpair
  obtain ⟨t', hparse', hraw'⟩ := Option.map_eq_some_iff.1 hafter
  exact ⟨t, t', ok_of_toOption hparse, ok_of_toOption hrender, by decide +kernel,
    ok_of_toOption hparse', hraw, hraw'⟩

set_option maxRecDepth 100000 in
/-- The name given to a function captures a free name inside it. -/
theorem naming_captures_free : ∃ t t',
    Grammar.parse .script "var x = function () \x7b\n  return $x;\n\x7d;\n" = .ok t ∧
      t.render defaultIndent = .ok "var x = function () \x7b\n  return $x;\n\x7d;\n" ∧
      nameAll "$" "var x = function () \x7b\n  return $x;\n\x7d;\n" =
        "var x = function $x() \x7b\n  return $x;\n\x7d;\n" ∧
      Grammar.parse .script "var x = function $x() \x7b\n  return $x;\n\x7d;\n" = .ok t' ∧
      Scope.freeNames t = .ok ["$x"] ∧ Scope.freeNames t' = .ok [] := by
  have hbefore : (Grammar.parse .script "var x = function () \x7b\n  return $x;\n\x7d;\n").toOption.map
      (fun t => ((t.render defaultIndent).toOption, (Scope.freeNames t).toOption)) =
        some (some "var x = function () \x7b\n  return $x;\n\x7d;\n", some ["$x"]) := by
    decide +kernel
  have hafter : (Grammar.parse .script
      "var x = function $x() \x7b\n  return $x;\n\x7d;\n").toOption.map
        (fun t => (Scope.freeNames t).toOption) = some (some []) := by
    decide +kernel
  obtain ⟨t, hparse, hpair⟩ := Option.map_eq_some_iff.1 hbefore
  obtain ⟨hrender, hfree⟩ := Prod.mk.inj hpair
  obtain ⟨t', hparse', hfree'⟩ := Option.map_eq_some_iff.1 hafter
  exact ⟨t, t', ok_of_toOption hparse, ok_of_toOption hrender, by decide +kernel,
    ok_of_toOption hparse', ok_of_toOption hfree, ok_of_toOption hfree'⟩

set_option maxRecDepth 100000 in
/-- With a digit as the separator an assigned function gets a name that is none. -/
theorem digit_separator_breaks_output :
    Config.ofFields [("separator", .text "1")] = .ok { separator := "1" } ∧
      recoverNames "x = function(){}" {} = .ok "x = function $x() {};\n" ∧
      (∃ t, Grammar.parse .script "x = function $x() {};\n" = .ok t) ∧
      recoverNames "x = function(){}" { separator := "1" } = .ok "x = function 1x() {};\n" ∧
      (∃ e, Grammar.parse .script "x = function 1x() {};\n" = .error e) := by
  have haccepts : (Config.ofFields [("separator", .text "1")]).toOption =
      some { separator := "1" } := by decide +kernel
  have hdefault : outputOf "x = function(){}" {} = some "x = function $x() {};\n" := by
    decide +kernel
  have hdigit : outputOf "x = function(){}" { separator := "1" } =
      some "x = function 1x() {};\n" := by decide +kernel
  have hparsed : (Grammar.parse .script "x = function $x() {};\n").isOk = true := by
    decide +kernel
  have hrefused : (Grammar.parse .script "x = function 1x() {};\n").isOk = false := by
    decide +kernel
  refine ⟨ok_of_toOption haccepts, recoverNames_of_outputOf hdefault, ?_,
    recoverNames_of_outputOf hdigit, ?_⟩
  · cases hparse : Grammar.parse .script "x = function $x() {};\n" with
    | ok t => exact ⟨t, rfl⟩
    | error e => rw [hparse] at hparsed; cases hparsed
  · cases hparse : Grammar.parse .script "x = function 1x() {};\n" with
    | ok t => rw [hparse] at hrefused; cases hrefused
    | error e => exact ⟨e, rfl⟩

end NameRecovery.FunctionNames
