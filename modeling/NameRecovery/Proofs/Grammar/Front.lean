import NameRecovery.Proofs.Grammar.Bare
import NameRecovery.Proofs.Grammar.Words
import NameRecovery.Proofs.Printer.Reparse

/-!
# Texts that start with a token

A text that starts with a word, a quote, an opening bracket or a mark has a token where it
starts: what it starts with is no comment.  Behind an opening parenthesis or a minus sign,
and behind a blank, this is asked of what follows.

* `IsFront` — the text starts with a token, and so does what stands in its parentheses;
* `isPlainStart` — the name starts with a character that is part of names, not with an
  escape;
* `Front` — the lookahead starts such a text;
* `front_of_nextToken` — the first token of such a text becomes the lookahead.
-/

namespace NameRecovery

namespace Source

/-! ## The texts -/

/-- Marks that start a token of an expression or statement, whatever follows them. -/
def openingMarks : List Char :=
  ['"', '\'', '`', '[', '\x7b', ')', '+', '!', '~', '.', ';']

/-- Does the text start with a token, and, if that is a parenthesis or a minus sign, what
follows it as well? -/
inductive IsFront : List Char → Prop
  /-- A word or a number. -/
  | word {c : Char} {cs : List Char} (hpart : isNamePart c = true) (hplain : c ≠ '\\') :
    IsFront (c :: cs)
  /-- A mark. -/
  | mark {c : Char} {cs : List Char} (h : c ∈ openingMarks) : IsFront (c :: cs)
  /-- A regular expression. -/
  | slash {d : Char} {cs : List Char} (hline : d ≠ '/') (hblock : d ≠ '*') :
    IsFront ('/' :: d :: cs)
  /-- A blank before the token. -/
  | blank {cs : List Char} (h : IsFront cs) : IsFront (' ' :: cs)
  /-- A minus sign. -/
  | minus {cs : List Char} (h : IsFront cs) : IsFront ('-' :: cs)
  /-- A parenthesis. -/
  | paren {cs : List Char} (h : IsFront cs) : IsFront ('(' :: cs)

/-- Does the name start with a character that is part of names, and not with an escape? -/
def isPlainStart (name : String) : Bool :=
  name.toList.head?.any fun c => isNamePart c && c != '\\'

/-- White space and line ends. -/
def gapChars : List Char :=
  ([0x09, 0x0b, 0x0c, 0x20, 0xa0, 0x1680, 0x180e, 0x202f, 0x205f, 0x3000, 0xfeff, 0x0a, 0x0d,
    0x2028, 0x2029] ++ List.range' 0x2000 11).map Char.ofNat

theorem mem_gapChars {c : Char} (h : isSpace c = true ∨ isLineEnd c = true) : c ∈ gapChars := by
  refine List.mem_map.2 ⟨c.toNat, ?_, Char.ofNat_toNat c⟩
  rw [List.mem_append, List.mem_range'_1]
  simp only [isSpace, isLineEnd, Bool.or_eq_true, beq_iff_eq, Bool.and_eq_true,
    decide_eq_true_eq] at h
  simp only [List.mem_cons, List.not_mem_nil, or_false]
  omega

/-- The part of a name is neither blank nor one of the marks. -/
theorem not_isNamePart {c : Char} (h : c ∈ gapChars ++ "/-<>(".toList) : isNamePart c = false := by
  have hnone : (gapChars ++ "/-<>(".toList).all (fun c => !isNamePart c) = true := by
    -- The tables of letters are searched as lists, which the kernel does faster.
    simp only [isNamePart, isNameStart, Text.startsIdentifier, Text.continuesIdentifier,
      Text.isLetter, Text.isMark, Text.isDecimal, Text.isConnector, Text.Ranges.has,
      ← Array.any_toList]
    decide +kernel
  simpa using List.all_eq_true.1 hnone c h

namespace IsFront

variable {c : Char} {cs more : List Char}

theorem append (h : IsFront cs) (more : List Char) : IsFront (cs ++ more) := by
  induction h with
  | word hpart hplain => exact .word hpart hplain
  | mark h => exact .mark h
  | slash hline hblock => exact .slash hline hblock
  | blank _ ih => exact .blank ih
  | minus _ ih => exact .minus ih
  | paren _ ih => exact .paren ih

theorem of_minus (h : IsFront ('-' :: cs)) : IsFront cs := by
  cases h with
  | word hpart => rw [not_isNamePart (by decide)] at hpart; cases hpart
  | mark h => exact absurd h (by decide)
  | minus h => exact h

theorem of_paren (h : IsFront ('(' :: cs)) : IsFront cs := by
  cases h with
  | word hpart => rw [not_isNamePart (by decide)] at hpart; cases hpart
  | mark h => exact absurd h (by decide)
  | paren h => exact h

theorem not_angle : ¬ IsFront ('>' :: cs) := by
  intro h
  cases h with
  | word hpart => rw [not_isNamePart (by decide)] at hpart; cases hpart
  | mark h => exact absurd h (by decide)

theorem of_blank (h : IsFront (' ' :: cs)) : IsFront cs := by
  cases h with
  | word hpart => rw [not_isNamePart (by decide)] at hpart; cases hpart
  | mark h => exact absurd h (by decide)
  | blank h => exact h

theorem ne_nil (h : IsFront cs) : cs ≠ [] := by
  cases h <;> exact List.cons_ne_nil _ _

theorem ne_backslash (h : IsFront (c :: cs)) : c ≠ '\\' := by
  cases h with
  | word _ hplain => exact hplain
  | mark h => rintro rfl; exact absurd h (by decide)
  | slash => decide
  | blank => decide
  | minus => decide
  | paren => decide

end IsFront

theorem isFront_of_isPlainStart {name : String} (h : isPlainStart name = true) :
    IsFront name.toList := by
  unfold isPlainStart at h
  cases hname : name.toList with
  | nil => rw [hname] at h; cases h
  | cons c cs =>
      rw [hname, List.head?_cons, Option.any_some, Bool.and_eq_true, bne_iff_ne] at h
      exact .word h.1 h.2

theorem isPlainStart_append {name : String} (h : isPlainStart name = true) (more : String) :
    isPlainStart (name ++ more) = true := by
  unfold isPlainStart at h ⊢
  rw [String.toList_append]
  cases hname : name.toList with
  | nil => rw [hname] at h; cases h
  | cons c cs => rwa [hname] at h

/-! ## There is no gap in front of the token -/

/-- Does the text start with neither a blank, nor a line end, nor a comment? -/
structure HasNoGap (cs : List Char) : Prop where
  /-- It starts with neither a blank nor a line end. -/
  head : ∀ c ∈ cs.head?, c ∉ gapChars
  /-- Nor with a comment. -/
  comment : ∀ mark ∈ ["//", "/*", "-->", "<!--"], ¬ mark.toList <+: cs

theorem not_prefix_of_ne {c d : Char} {cs ds : List Char} (h : c ≠ d) : ¬ c :: cs <+: d :: ds :=
  fun hprefix => h (List.cons_prefix_cons.1 hprefix).1

/-- No comment starts with another character than these. -/
theorem HasNoGap.of_ne {c : Char} {cs : List Char} (hgap : c ∉ gapChars) (hslash : c ≠ '/')
    (hminus : c ≠ '-') (hangle : c ≠ '<') : HasNoGap (c :: cs) := by
  refine ⟨by rintro d ⟨⟩; exact hgap, ?_⟩
  simp only [List.forall_mem_cons]
  refine ⟨?_, ?_, ?_, ?_, nofun⟩
  · exact not_prefix_of_ne hslash.symm
  · exact not_prefix_of_ne hslash.symm
  · exact not_prefix_of_ne hminus.symm
  · exact not_prefix_of_ne hangle.symm

theorem IsFront.hasNoGap {cs : List Char} (h : IsFront cs) (hblank : cs.head? ≠ some ' ') :
    HasNoGap cs := by
  cases h with
  | @word c _ hpart =>
      have hmark : c ∉ gapChars ++ "/-<>(".toList := fun hmem => by
        rw [not_isNamePart hmem] at hpart
        cases hpart
      rw [List.mem_append, not_or] at hmark
      refine .of_ne hmark.1 ?_ ?_ ?_ <;> rintro rfl <;> exact hmark.2 (by decide)
  | mark hmark =>
      have hall : openingMarks.all (fun c => !gapChars.contains c && c != '/' && c != '-' &&
          c != '<') = true := by decide
      have hplain := List.all_eq_true.1 hall _ hmark
      simp only [Bool.and_eq_true, Bool.not_eq_true', bne_iff_ne] at hplain
      refine .of_ne (fun hgap => ?_) hplain.1.1.2 hplain.1.2 hplain.2
      rw [List.contains_iff_mem.2 hgap] at hplain
      cases hplain.1.1.1
  | slash hline hblock =>
      refine ⟨by rintro d ⟨⟩; decide, ?_⟩
      simp only [List.forall_mem_cons]
      refine ⟨fun h => ?_, fun h => ?_, ?_, ?_, nofun⟩
      · exact not_prefix_of_ne hline.symm (List.cons_prefix_cons.1 h).2
      · exact not_prefix_of_ne hblock.symm (List.cons_prefix_cons.1 h).2
      · exact not_prefix_of_ne (by decide)
      · exact not_prefix_of_ne (by decide)
  | blank => exact absurd rfl hblank
  | minus hcs =>
      refine ⟨by rintro d ⟨⟩; decide, ?_⟩
      simp only [List.forall_mem_cons]
      refine ⟨?_, ?_, ?_, ?_, nofun⟩
      · exact not_prefix_of_ne (by decide)
      · exact not_prefix_of_ne (by decide)
      · rintro ⟨more, hmore⟩
        obtain rfl := (List.cons.inj hmore).2
        exact not_angle hcs.of_minus
      · exact not_prefix_of_ne (by decide)
  | paren => exact .of_ne (by decide) (by decide) (by decide) (by decide)

section Gap

variable {c stop : Cursor} {isModule lineBegins : Bool} {budget : List Char}

theorem sees_eq_false {text : String} (h : ¬ text.toList <+: c.rest) : c.sees text = false :=
  Bool.eq_false_iff.2 fun hsees => h (List.isPrefixOf_iff_prefix.1 hsees)

/-- Where no gap starts, none is passed. -/
theorem skipGapFrom_here (h : HasNoGap c.rest) :
    skipGapFrom isModule budget lineBegins c = .ok c := by
  cases budget with
  | nil => rfl
  | cons _ budget =>
      have hcomment := fun mark hmark => @sees_eq_false c mark (h.comment mark hmark)
      simp only [List.forall_mem_cons] at hcomment
      obtain ⟨hline, hblock, hclosing, hopening, -⟩ := hcomment
      unfold skipGapFrom
      split
      · rfl
      · rename_i ch cs hrest
        have hhead : ch ∉ gapChars := h.head ch (by rw [hrest]; rfl)
        have hspace : isSpace ch = false :=
          Bool.eq_false_iff.2 fun h => hhead (mem_gapChars (.inl h))
        have hend : isLineEnd ch = false :=
          Bool.eq_false_iff.2 fun h => hhead (mem_gapChars (.inr h))
        simp [hspace, hend, hline, hblock, hclosing, hopening]

/-- Nothing but the blanks in front of such a text are passed. -/
theorem skipGap_front (hfront : IsFront c.rest) (hbudget : c.rest.length ≤ budget.length)
    (h : skipGapFrom isModule budget lineBegins c = .ok stop) : IsFront stop.rest := by
  induction budget generalizing c with
  | nil => cases h; exact hfront
  | cons _ budget ih =>
      by_cases hblank : c.rest.head? = some ' '
      · obtain ⟨cs, hrest⟩ := List.head?_eq_some_iff.1 hblank
        have hnext : (c.advance 1).rest = cs := by simp [Cursor.advance, hrest]
        have hspace : isSpace ' ' = true := by decide
        unfold skipGapFrom at h
        rw [hrest] at h hbudget hfront
        simp only [hspace, if_true] at h
        refine ih (hnext ▸ hfront.of_blank) ?_ h
        rw [hnext]
        exact Nat.le_of_succ_le_succ hbudget
      · rw [skipGapFrom_here (hfront.hasNoGap hblank)] at h
        cases h
        exact hfront

end Gap

/-! ## The token -/

/-- Is it a parenthesis or a minus sign, behind which the text goes on as one that starts? -/
def isOpening (token : Token) : Bool :=
  token.isMark "(" || token.isMark "-" || token.isMark "--"

/-- Is the token none that ends the text, and does a name or keyword start plainly? -/
structure IsSolid (token : Token) : Prop where
  /-- It is a token. -/
  not_end : token.isEnd = false
  /-- It is no name that starts with an escape. -/
  name : ∀ text, token.lexeme = .name text ∨ token.lexeme = .keyword text ∨
    token.lexeme = .boolean text → isPlainStart text = true

section Scanning

variable {c stop : Cursor} {token : Token} {ch : Char} {cs : List Char}

theorem escapedNameFrom_prefix {budget done chars : List Char}
    (h : escapedNameFrom budget done c = .ok (chars, stop)) : done.reverse <+: chars := by
  induction budget generalizing done c with
  | nil => cases h; exact List.prefix_refl _
  | cons _ budget ih =>
      have hmore : ∀ {ch : Char} {c : Cursor},
          escapedNameFrom budget (ch :: done) c = .ok (chars, stop) → done.reverse <+: chars := by
        intro ch c hrest
        refine List.IsPrefix.trans ⟨[ch], ?_⟩ (ih hrest)
        rw [List.reverse_cons]
      unfold escapedNameFrom at h
      split at h
      · cases h
        exact List.prefix_refl _
      · cases hescape : nameEscape (if done.isEmpty then isNameStart else isNamePart) (c.advance 1)
            with
        | error e => rw [hescape] at h; cases h
        | ok r => rw [hescape] at h; exact hmore h
      · split at h
        · exact hmore h
        · cases h
          exact List.prefix_refl _

/-- A name is read from its first character on, unless that is a backslash. -/
theorem scanName_head {chars : List Char} (hrest : c.rest = ch :: cs) (hpart : isNamePart ch = true)
    (hplain : ch ≠ '\\') (h : scanName c = .ok (chars, stop)) : chars.head? = some ch := by
  unfold scanName at h
  extract_lets plain middle at h
  split at h
  · rw [hrest, escapedNameFrom] at h
    · split at h
      · rename_i hnil
        rw [hrest] at hnil
        cases hnil
      · rename_i hslash
        rw [hrest] at hslash
        exact absurd (List.cons.inj hslash).1 hplain
      · rename_i hhere
        rw [hrest] at hhere
        obtain ⟨rfl, rfl⟩ := List.cons.inj hhere
        rw [if_pos hpart] at h
        obtain ⟨more, rfl⟩ := escapedNameFrom_prefix h
        rfl
  · obtain ⟨rfl, -⟩ := Prod.mk.inj (Except.ok.inj h)
    dsimp only [plain]
    rw [hrest, List.takeWhile_cons_of_pos (by simp [hpart, hplain])]
    rfl

theorem eq_of_wordLexeme {word text : String}
    (h : wordLexeme word = .name text ∨ wordLexeme word = .keyword text ∨
      wordLexeme word = .boolean text) : text = word := by
  unfold wordLexeme at h
  grind

theorem wordLexeme_ne (word text : String) :
    wordLexeme word ≠ .mark text ∧ wordLexeme word ≠ .endOfInput := by
  unfold wordLexeme
  grind

/-- A word is read from its first character on as well. -/
theorem scanWord_head (hrest : c.rest = ch :: cs) (hpart : isNamePart ch = true)
    (hplain : ch ≠ '\\') (h : scanWord c = .ok (token, stop)) :
    ∃ word, isPlainStart word = true ∧ token.lexeme = wordLexeme word := by
  cases hname : scanName c with
  | error e => simp [scanWord, hname, bind, Except.bind] at h
  | ok r =>
      obtain ⟨chars, middle⟩ := r
      simp only [scanWord, hname, bind, Except.bind] at h
      cases ok_of_unless h
      refine ⟨String.ofList chars, ?_, rfl⟩
      rw [isPlainStart, String.toList_ofList, scanName_head hrest hpart hplain hname]
      simp [hpart, hplain]

/-- Is the token spelled from `c` up to `stop`, and not empty? -/
structure Spans (c stop : Cursor) (token : Token) : Prop where
  /-- It is spelled by the characters between. -/
  raw : token.raw = String.ofList (c.textTo stop)
  /-- There are some. -/
  index : c.index < stop.index

theorem Spans.exists_raw (h : Spans c stop token) (hrest : c.rest = ch :: cs) :
    token.raw.toList = ch :: cs.take (stop.index - c.index - 1) := by
  obtain ⟨n, hn⟩ : ∃ n, stop.index - c.index = n + 1 :=
    Nat.exists_eq_succ_of_ne_zero (Nat.sub_ne_zero_of_lt h.index)
  rw [h.raw, String.toList_ofList, Cursor.textTo, hn, hrest, List.take_succ_cons]
  rfl

theorem scanString_value (h : scanString c = .ok (token, stop)) :
    (∃ value octal, token.lexeme = .string value octal) ∧ Spans c stop token := by
  unfold scanString at h
  cases hbody : stringBody c.peek (c.rest.drop 1) [] false (c.advance 1) with
  | error e => rw [hbody] at h; cases h
  | ok r =>
      rw [hbody] at h
      obtain ⟨found, after⟩ := r
      cases found with
      | none => cases h
      | some found =>
          cases h
          have hindex := index_lt_stringBody hbody
          rw [index_advance] at hindex
          exact ⟨⟨_, _, rfl⟩, rfl, by omega⟩

theorem endNumber_value {start middle : Cursor} {octal : Bool} {bad : Char → Bool}
    (hindex : start.index < middle.index)
    (h : endNumber start middle octal bad = .ok (token, stop)) :
    (∃ octal, token.lexeme = .number octal) ∧ Spans start stop token := by
  cases ok_of_unless h
  exact ⟨⟨_, rfl⟩, rfl, hindex⟩

theorem index_le_skipWhile (c : Cursor) (p : Char → Bool) : c.index ≤ (c.skipWhile p).index :=
  Nat.le_add_right _ _

theorem index_le_scanExponent (h : scanExponent c = .ok stop) : c.index ≤ stop.index := by
  unfold scanExponent at h
  split at h
  · extract_lets c₁ c₂ at h
    have hsign : c.index ≤ c₂.index := by
      dsimp only [c₂]
      split <;> simp only [c₁, index_advance] <;> omega
    split at h
    · cases h
      exact hsign.trans (index_le_skipWhile _ _)
    · cases h
  · cases h
    exact Nat.le_refl _

theorem scanDecimal_value (hhead : c.peek.isDigit = true ∨ c.peek = '.')
    (h : scanDecimal c = .ok (token, stop)) :
    (∃ octal, token.lexeme = .number octal) ∧ Spans c stop token := by
  unfold scanDecimal at h
  extract_lets c₁ c₂ at h
  have hfraction : c.index < c₂.index := by
    have hhere : c.index ≤ c₁.index := index_le_skipWhile _ _
    have hthere : c₁.index ≤ c₂.index := by
      dsimp only [c₂]
      split
      · exact (Nat.le_succ _).trans (index_le_skipWhile (c₁.advance 1) _)
      · exact Nat.le_refl _
    rcases hhead with hdigit | hdot
    · refine Nat.lt_of_lt_of_le ?_ hthere
      cases hrest : c.rest with
      | nil => simp [Cursor.peek, hrest] at hdigit
      | cons d ds =>
          have hd : d.isDigit = true := by simpa [Cursor.peek, hrest] using hdigit
          simp [c₁, Cursor.skipWhile, hrest, List.takeWhile_cons_of_pos hd]
    · refine Nat.lt_of_le_of_lt hhere ?_
      have hnone : c.rest.takeWhile Char.isDigit = [] := by
        cases hrest : c.rest with
        | nil => rfl
        | cons d ds =>
            have hd : d = '.' := by simpa [Cursor.peek, hrest] using hdot
            rw [hd]
            rfl
      have hpeek : c₁.peek = '.' := by
        simpa [c₁, Cursor.skipWhile, hnone, Cursor.advance, Cursor.peek] using hdot
      dsimp only [c₂]
      rw [if_pos hpeek]
      exact Nat.lt_of_succ_le (index_le_skipWhile (c₁.advance 1) _)
  cases hexponent : scanExponent c₂ with
  | error e => rw [hexponent] at h; cases h
  | ok c₃ =>
      rw [hexponent] at h
      exact endNumber_value (hfraction.trans_le (index_le_scanExponent hexponent)) h

theorem scanNumber_value (hhead : c.peek.isDigit = true ∨ c.peek = '.')
    (h : scanNumber c = .ok (token, stop)) :
    (∃ octal, token.lexeme = .number octal) ∧ Spans c stop token := by
  have hbased : ∀ {digit bad}, scanBased c (c.advance 2) digit bad = .ok (token, stop) →
      (∃ octal, token.lexeme = .number octal) ∧ Spans c stop token := by
    intro digit bad h
    unfold scanBased at h
    extract_lets middle at h
    split at h
    · cases h
    · refine endNumber_value ?_ h
      have hmiddle := index_le_skipWhile (c.advance 2) digit
      rw [index_advance] at hmiddle
      exact Nat.lt_of_lt_of_le (by omega) hmiddle
  unfold scanNumber at h
  extract_lets mark at h
  split at h
  · exact scanDecimal_value hhead h
  split at h
  · exact hbased h
  split at h
  · exact hbased h
  split at h
  · exact hbased h
  split at h
  · refine endNumber_value ?_ h
    have hmiddle := index_le_skipWhile (c.advance 2) isOctal
    rw [index_advance] at hmiddle
    omega
  · exact scanDecimal_value hhead h

theorem scanTemplate_piece {braces braces' : List Brace}
    (h : scanTemplate braces c = .ok (token, stop, braces')) :
    ∃ raw head tail, token.lexeme = .template raw head tail := by
  unfold scanTemplate at h
  extract_lets head at h
  cases hbody : templateBody c.rest (c.advance 1) with
  | error e => rw [hbody] at h; cases h
  | ok r =>
      rw [hbody] at h
      cases h
      exact ⟨_, _, _, rfl⟩

/-- The token such a text starts with. -/
theorem scanToken_front {braces braces' : List Brace} (hfront : IsFront c.rest)
    (h : scanToken braces c = .ok (token, stop, braces')) :
    IsSolid token ∧ (isOpening token = true → IsFront stop.rest) := by
  obtain ⟨ch, cs, hrest⟩ := List.exists_cons_of_ne_nil hfront.ne_nil
  have hend : c.atEnd = false := by simp [Cursor.atEnd, hrest]
  have hpeek : c.peek = ch := by simp [Cursor.peek, hrest]
  have hplain : ch ≠ '\\' := (hrest ▸ hfront).ne_backslash
  -- only marks open a text, and no mark is a name
  have hother : ∀ {token : Token}, (∀ text, token.lexeme ≠ .mark text) → isOpening token = true →
      IsFront stop.rest := by
    intro token hmark hopen
    simp only [isOpening, Token.isMark, Bool.or_eq_true, beq_iff_eq] at hopen
    rcases hopen with (h | h) | h <;> exact absurd h (hmark _)
  have hvalue : ∀ {token : Token}, token.isEnd = false →
      (∀ text, token.lexeme ≠ .name text ∧ token.lexeme ≠ .keyword text ∧
        token.lexeme ≠ .boolean text) → IsSolid token := by
    intro token hend hname
    refine ⟨hend, fun text htext => ?_⟩
    rcases htext with h | h | h
    · exact absurd h (hname text).1
    · exact absurd h (hname text).2.1
    · exact absurd h (hname text).2.2
  unfold scanToken at h
  extract_lets keep ch' at h
  rw [if_neg (by simp [hend])] at h
  split at h
  · rename_i hstart
    obtain ⟨hword, rfl⟩ := ok_of_keep h
    have hpart : isNamePart ch = true := by
      rw [← hpeek, isNamePart, show isNameStart c.peek = true from hstart]
      rfl
    obtain ⟨word, hfirst, hlexeme⟩ := scanWord_head hrest hpart hplain hword
    refine ⟨⟨?_, fun text htext => ?_⟩, hother fun text => hlexeme ▸ (wordLexeme_ne word text).1⟩
    · rw [Token.isEnd, hlexeme]
      exact beq_eq_false_iff_ne.2 (wordLexeme_ne word "").2
    · rw [hlexeme] at htext
      rw [eq_of_wordLexeme htext]
      exact hfirst
  split at h
  · obtain ⟨hstring, rfl⟩ := ok_of_keep h
    obtain ⟨⟨value, octal, hlexeme⟩, -⟩ := scanString_value hstring
    exact ⟨hvalue (by simp [Token.isEnd, hlexeme]) (by simp [hlexeme]), hother (by simp [hlexeme])⟩
  split at h
  · rename_i hdigit
    obtain ⟨hnumber, rfl⟩ := ok_of_keep h
    have hhead : c.peek.isDigit = true ∨ c.peek = '.' := by
      rw [Bool.or_eq_true, Bool.and_eq_true, beq_iff_eq] at hdigit
      exact hdigit.imp_right And.left
    obtain ⟨⟨octal, hlexeme⟩, -⟩ := scanNumber_value hhead hnumber
    exact ⟨hvalue (by simp [Token.isEnd, hlexeme]) (by simp [hlexeme]), hother (by simp [hlexeme])⟩
  split at h
  · obtain ⟨raw, head, tail, hlexeme⟩ := scanTemplate_piece h
    exact ⟨hvalue (by simp [Token.isEnd, hlexeme]) (by simp [hlexeme]), hother (by simp [hlexeme])⟩
  · unfold scanMark at h
    split at h
    · cases h
    · rename_i text hmark
      obtain ⟨⟨more, hmore⟩, -⟩ := markAt?_spec hmark
      cases h
      refine ⟨hvalue rfl (by simp [Token.between]), fun hopen => ?_⟩
      simp only [isOpening, Token.isMark, Token.between, Bool.or_eq_true, beq_iff_eq,
        Lexeme.mark.injEq] at hopen
      have hleft : (c.advance text.length).rest = more := by
        rw [Cursor.advance, ← hmore, ← String.length_toList, List.drop_left]
      rw [← hmore] at hfront
      rw [hleft]
      rcases hopen with (rfl | rfl) | rfl
      · exact hfront.of_paren
      · exact hfront.of_minus
      · exact hfront.of_minus.of_minus

end Scanning

end Source

/-! ## The lookahead -/

namespace Grammar

open Source

/-- Does the lookahead start a text that starts with a token? -/
structure Front (s : State) : Prop where
  /-- The lookahead is a token. -/
  solid : IsSolid s.lookahead
  /-- Behind a parenthesis or a minus sign the text goes on like that. -/
  opening : isOpening s.lookahead = true → IsFront s.cursor.rest

variable {s s' : State} {token : Token}

theorem inStrict_solid (h : IsSolid token) : IsSolid (Token.inStrict token) := by
  unfold Token.inStrict
  split
  · rename_i text htext
    split
    · refine ⟨rfl, fun name hname => ?_⟩
      rcases hname with hname | hname | hname
      · cases hname
      · rw [← Lexeme.keyword.inj hname]
        exact h.name text (.inl htext)
      · cases hname
    · exact h
  · exact h

theorem inStrict_isOpening (token : Token) : isOpening (Token.inStrict token) = isOpening token := by
  unfold Token.inStrict
  split
  · rename_i text htext
    split
    · unfold isOpening Token.isMark
      rw [htext]
      rfl
    · rfl
  · rfl

/-- The first token of a text that starts with one becomes the lookahead. -/
theorem front_of_nextToken (hfront : IsFront s.cursor.rest) (h : nextToken s = .ok (token, s')) :
    token = s.lookahead ∧ Front s' := by
  obtain ⟨start, found, stop, braces, hgap, hfound, htoken, rfl⟩ := nextToken_cases h
  obtain ⟨hsolid, hopening⟩ := scanToken_front (skipGap_front hfront (Nat.le_refl _) hgap) hfound
  refine ⟨htoken, ?_, ?_⟩
  · change IsSolid (if s.context.strict then Token.inStrict found else found)
    split
    · exact inStrict_solid hsolid
    · exact hsolid
  · change isOpening (if s.context.strict then Token.inStrict found else found) = true → _
    split
    · rw [inStrict_isOpening]
      exact hopening
    · exact hopening

end Grammar

end NameRecovery
