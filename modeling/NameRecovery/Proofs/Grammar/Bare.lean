import NameRecovery.Proofs.Grammar.Made.Statement
import NameRecovery.Text.Blank
import Mathlib.Data.List.TakeWhile

/-!
# Texts without quotes

In a text without quotes, backticks, slashes and the marks of the old comments every
character belongs to a word, a number, a mark or a gap.  Some characters are blank in
free-form text and belong to none of these, so that a text with one of them is rejected.

* `isForeignBlank` — the characters in question;
* `IsBare` — texts that are made of words, numbers, marks and gaps only;
* `Passes` — what the scanner passes has no foreign blank; one lemma for each of its
  functions;
* `no_foreign_of_parse` — an accepted bare text has none.
-/

namespace NameRecovery

namespace Source

/-! ## Foreign blanks and bare texts -/

/-- Is it blank in free-form text, but neither white space nor a line end of a program? -/
def isForeignBlank (c : Char) : Bool :=
  Text.isBlank c && !isSpace c && !isLineEnd c

/-- The foreign blanks: the information separators and the next line. -/
def foreignBlanks : List Char :=
  [0x1c, 0x1d, 0x1e, 0x1f, 0x85].map Char.ofNat

theorem mem_foreignBlanks {c : Char} (h : isForeignBlank c = true) : c ∈ foreignBlanks := by
  refine List.mem_map.2 ⟨c.toNat, ?_, Char.ofNat_toNat c⟩
  simp [isForeignBlank, Text.isBlank, isSpace, isLineEnd] at h ⊢
  omega

/-- A class of characters without these five has no foreign blank. -/
theorem not_isForeignBlank {p : Char → Bool} (hnone : foreignBlanks.any p = false) {c : Char}
    (h : p c = true) : isForeignBlank c = false := by
  refine Bool.eq_false_iff.2 fun hforeign => ?_
  have hsome : foreignBlanks.any p = true := List.any_eq_true.2 ⟨c, mem_foreignBlanks hforeign, h⟩
  rw [hnone] at hsome
  cases hsome

theorem not_isForeignBlank_of_isNamePart {c : Char} (h : isNamePart c = true) :
    isForeignBlank c = false := by
  refine not_isForeignBlank (p := fun c => isNamePart c) ?_ h
  -- The tables of letters are searched as lists, which the kernel does faster.
  simp only [isNamePart, isNameStart, Text.startsIdentifier, Text.continuesIdentifier,
    Text.isLetter, Text.isMark, Text.isDecimal, Text.isConnector, Text.Ranges.has,
    ← Array.any_toList]
  decide +kernel

theorem not_isForeignBlank_of_isHex {c : Char} (h : isHex c = true) : isForeignBlank c = false :=
  not_isForeignBlank (by decide +kernel) h

/-- The characters that start a text, a template, a regular expression or a comment. -/
def quoteMarks : List Char :=
  ['\'', '"', '`', '/']

/-- Has the text no quotes, backticks, slashes and marks of the old comments? -/
def IsBare (cs : List Char) : Prop :=
  cs.any quoteMarks.contains = false ∧ ¬ "<!--".toList <:+: cs ∧ ¬ "-->".toList <:+: cs

instance (cs : List Char) : Decidable (IsBare cs) :=
  inferInstanceAs (Decidable (_ ∧ _ ∧ _))

theorem IsBare.suffix {cs more : List Char} (h : IsBare (more ++ cs)) : IsBare cs := by
  have hinfix : cs <:+: more ++ cs := (List.suffix_append _ _).isInfix
  refine ⟨?_, fun ho => h.2.1 (ho.trans hinfix), fun hc => h.2.2 (hc.trans hinfix)⟩
  exact (Bool.or_eq_false_iff.1 (List.any_append ▸ h.1)).2

theorem IsBare.not_mem {cs : List Char} (h : IsBare cs) {c : Char} (hc : c ∈ cs) :
    c ∉ quoteMarks := by
  intro hmark
  have hsome : cs.any quoteMarks.contains = true :=
    List.any_eq_true.2 ⟨c, hc, List.contains_iff_mem.2 hmark⟩
  rw [h.1] at hsome
  cases hsome

/-! ## What the scanner passes -/

/-- Is there no foreign blank between the two places? -/
def Passes (c stop : Cursor) : Prop :=
  ∃ eaten, c.rest = eaten ++ stop.rest ∧ ∀ ch ∈ eaten, isForeignBlank ch = false

namespace Passes

variable {c stop stop' : Cursor} {digits : List Char}

theorem refl : Passes c c := ⟨[], rfl, nofun⟩

theorem trans (h : Passes c stop) (h' : Passes stop stop') : Passes c stop' := by
  obtain ⟨eaten, hrest, hclean⟩ := h
  obtain ⟨eaten', hrest', hclean'⟩ := h'
  refine ⟨eaten ++ eaten', by rw [hrest, hrest', List.append_assoc], ?_⟩
  exact List.forall_mem_append.2 ⟨hclean, hclean'⟩

/-- A run of characters that stands here. -/
theorem run (hhere : digits <+: c.rest) (hclean : ∀ ch ∈ digits, isForeignBlank ch = false) :
    Passes c (c.advance digits.length) := by
  obtain ⟨more, hmore⟩ := hhere
  refine ⟨digits, ?_, hclean⟩
  rw [← hmore]
  simp [Cursor.advance, ← hmore]

theorem skipWhile {p : Char → Bool} (hp : ∀ ch, p ch = true → isForeignBlank ch = false) :
    Passes c (c.skipWhile p) :=
  run (List.takeWhile_prefix p) fun ch hch => hp ch (List.mem_takeWhile_imp hch)

/-- One character that stands here. -/
theorem step (h : isForeignBlank c.peek = false) : Passes c (c.advance 1) := by
  cases hrest : c.rest with
  | nil => exact ⟨[], by simp [Cursor.advance, hrest], nofun⟩
  | cons ch more =>
      have hpeek : c.peek = ch := by simp [Cursor.peek, hrest]
      refine ⟨[ch], by simp [Cursor.advance, hrest], ?_⟩
      exact fun d hd => List.mem_singleton.1 hd ▸ hpeek ▸ h

/-- One character more. -/
theorem next {n : Nat} (h : Passes c (c.advance n)) (hnext : isForeignBlank (c.peekAt n) = false) :
    Passes c (c.advance (n + 1)) := by
  have hstep : Passes (c.advance n) ((c.advance n).advance 1) := .step hnext
  obtain ⟨eaten, hrest, hclean⟩ := h.trans hstep
  refine ⟨eaten, ?_, hclean⟩
  rw [hrest]
  simp [Cursor.advance]

theorem bare (h : Passes c stop) (hbare : IsBare c.rest) : IsBare stop.rest := by
  obtain ⟨eaten, hrest, -⟩ := h
  exact (hrest ▸ hbare).suffix

theorem countP (h : Passes c stop) :
    stop.rest.countP isForeignBlank = c.rest.countP isForeignBlank := by
  obtain ⟨eaten, hrest, hclean⟩ := h
  have hnone : eaten.countP isForeignBlank = 0 := by
    rw [List.countP_eq_zero]
    exact fun ch hch => Bool.eq_false_iff.1 (hclean ch hch)
  rw [hrest, List.countP_append, hnone, Nat.zero_add]

end Passes

section Scanner

variable {c stop : Cursor}

/-- A result behind a complaint. -/
theorem ok_of_unless {α : Type} {p : Prop} [Decidable p] {e : SourceError} {a b : α}
    (h : (if p then .error e else .ok a : Scan α) = .ok b) : a = b := by
  split at h
  · cases h
  · exact Except.ok.inj h

/-- Either of two characters that are no foreign blanks. -/
theorem clean_of_or {ch d d' : Char} (h : ch = d ∨ ch = d') (hd : isForeignBlank d = false)
    (hd' : isForeignBlank d' = false) : isForeignBlank ch = false := by
  rcases h with rfl | rfl
  · exact hd
  · exact hd'

theorem passes_hexEscape {count : Nat} {code : Option Nat} (h : hexEscape count c = (code, stop)) :
    Passes c stop := by
  obtain rfl := (Prod.mk.inj h).2
  have hhere : (c.rest.take count).takeWhile isHex <+: c.rest :=
    (List.takeWhile_prefix isHex).trans (List.take_prefix count c.rest)
  exact .run hhere fun ch hch => not_isForeignBlank_of_isHex (List.mem_takeWhile_imp hch)

theorem passes_bracedEscape {ch : Char} (h : bracedEscape c = .ok (ch, stop)) :
    Passes c stop := by
  unfold bracedEscape at h
  split at h
  · cases h
  extract_lets digits middle code at h
  split at h
  · cases h
  split at h
  · rename_i hclosed
    cases h
    have hdigits : Passes c middle := .run (List.takeWhile_prefix isHex)
      fun ch hch => not_isForeignBlank_of_isHex (List.mem_takeWhile_imp hch)
    exact hdigits.trans (.step (by rw [hclosed.1]; decide))
  · cases h

theorem passes_nameEscape {allowed : Char → Bool} {ch : Char}
    (h : nameEscape allowed c = .ok (ch, stop)) : Passes c stop := by
  unfold nameEscape at h
  split at h
  · cases h
  rename_i hmark
  have hfirst : Passes c (c.advance 1) := .step (by rw [not_not.1 hmark]; decide)
  split at h
  · rename_i hbrace
    exact (hfirst.next (by rw [hbrace]; decide)).trans (passes_bracedEscape h)
  · split at h
    · rename_i code stop' hhex
      extract_lets ch' at h
      split at h
      · cases h
      · obtain ⟨-, rfl⟩ := Prod.mk.inj (Except.ok.inj h)
        exact hfirst.trans (passes_hexEscape hhex)
    · cases h

theorem passes_escapedNameFrom {budget done chars : List Char}
    (h : escapedNameFrom budget done c = .ok (chars, stop)) : Passes c stop := by
  induction budget generalizing done c with
  | nil => cases h; exact .refl
  | cons _ budget ih =>
      unfold escapedNameFrom at h
      split at h
      · cases h
        exact .refl
      · rename_i hrest
        have hstep : Passes c (c.advance 1) := .step (by simp [Cursor.peek, hrest]; decide)
        cases hescape : nameEscape (if done.isEmpty then isNameStart else isNamePart) (c.advance 1)
            with
        | error e => rw [hescape] at h; cases h
        | ok r =>
            rw [hescape] at h
            exact (hstep.trans (passes_nameEscape hescape)).trans (ih h)
      · rename_i ch _ _ hrest
        split at h
        · rename_i hpart
          have hstep : Passes c (c.advance 1) := .step (by
            simpa [Cursor.peek, hrest] using not_isForeignBlank_of_isNamePart hpart)
          exact hstep.trans (ih h)
        · cases h
          exact .refl

theorem passes_scanName {chars : List Char} (h : scanName c = .ok (chars, stop)) :
    Passes c stop := by
  unfold scanName at h
  extract_lets plain middle at h
  split at h
  · exact passes_escapedNameFrom h
  · obtain ⟨-, rfl⟩ := Prod.mk.inj (Except.ok.inj h)
    refine .run (List.takeWhile_prefix _) fun ch hch => not_isForeignBlank_of_isNamePart ?_
    have hrun := List.mem_takeWhile_imp (p := fun ch => isNamePart ch && ch != '\\') hch
    exact (Bool.and_eq_true_iff.1 hrun).1

/-- The token is no slash and not the end of the text. -/
def IsInner (token : Token) : Prop :=
  Grammar.isSlash token = false ∧ token.isEnd = false

theorem isInner_wordLexeme {token : Token} {word : String} (h : token.lexeme = wordLexeme word) :
    IsInner token := by
  unfold IsInner Grammar.isSlash Token.isMark Token.isEnd
  rw [h]
  unfold wordLexeme
  split
  · exact ⟨rfl, rfl⟩
  split
  · exact ⟨rfl, rfl⟩
  split
  · exact ⟨rfl, rfl⟩
  split
  · exact ⟨rfl, rfl⟩
  · exact ⟨rfl, rfl⟩

theorem scanWord_spec {token : Token} (h : scanWord c = .ok (token, stop)) :
    Passes c stop ∧ IsInner token := by
  cases hname : scanName c with
  | error e => simp [scanWord, hname, bind, Except.bind] at h
  | ok r =>
      obtain ⟨chars, middle⟩ := r
      simp only [scanWord, hname, bind, Except.bind] at h
      cases ok_of_unless h
      exact ⟨passes_scanName hname, isInner_wordLexeme rfl⟩

/-! ### Numbers -/

theorem isInner_number {token : Token} {octal : Bool} (h : token.lexeme = .number octal) :
    IsInner token := by
  unfold IsInner Grammar.isSlash Token.isMark Token.isEnd
  rw [h]
  exact ⟨rfl, rfl⟩

theorem endNumber_spec {start middle : Cursor} {token : Token} {octal : Bool} {bad : Char → Bool}
    (hpasses : Passes start middle) (h : endNumber start middle octal bad = .ok (token, stop)) :
    Passes start stop ∧ IsInner token := by
  cases ok_of_unless h
  exact ⟨hpasses, isInner_number rfl⟩

theorem scanBased_spec {start : Cursor} {token : Token} {digit bad : Char → Bool}
    (hdigit : foreignBlanks.any digit = false) (hpasses : Passes start c)
    (h : scanBased start c digit bad = .ok (token, stop)) :
    Passes start stop ∧ IsInner token := by
  unfold scanBased at h
  extract_lets middle at h
  split at h
  · cases h
  · exact endNumber_spec (hpasses.trans (.skipWhile fun ch => not_isForeignBlank hdigit)) h

theorem passes_digits : Passes c (c.skipWhile Char.isDigit) :=
  .skipWhile fun _ => not_isForeignBlank (by decide)

/-- A mark that may stand here or not. -/
theorem passes_optional {p : Char → Prop} [DecidablePred p]
    (hp : ∀ ch, p ch → isForeignBlank ch = false) :
    Passes c (if p c.peek then c.advance 1 else c) := by
  split
  · exact .step (hp _ ‹_›)
  · exact .refl

theorem passes_scanExponent (h : scanExponent c = .ok stop) : Passes c stop := by
  unfold scanExponent at h
  split at h
  · rename_i hmark
    have hfirst : Passes c (c.advance 1) := .step (clean_of_or hmark rfl rfl)
    extract_lets c₁ c₂ at h
    have hsign : Passes c₁ c₂ := passes_optional (p := fun ch => ch = '+' ∨ ch = '-')
      fun _ hsign => clean_of_or hsign rfl rfl
    split at h
    · cases h
      exact (hfirst.trans hsign).trans passes_digits
    · cases h
  · cases h
    exact .refl

theorem scanDecimal_spec {token : Token} (h : scanDecimal c = .ok (token, stop)) :
    Passes c stop ∧ IsInner token := by
  unfold scanDecimal at h
  extract_lets c₁ c₂ at h
  have hfraction : Passes c₁ c₂ := by
    dsimp only [c₂]
    split
    · rename_i hdot
      exact (Passes.step (by rw [hdot]; decide)).trans passes_digits
    · exact .refl
  cases hexponent : scanExponent c₂ with
  | error e => rw [hexponent] at h; cases h
  | ok c₃ =>
      rw [hexponent] at h
      exact endNumber_spec ((passes_digits.trans hfraction).trans (passes_scanExponent hexponent)) h

theorem scanNumber_spec {token : Token} (h : scanNumber c = .ok (token, stop)) :
    Passes c stop ∧ IsInner token := by
  unfold scanNumber at h
  extract_lets mark at h
  split at h
  · exact scanDecimal_spec h
  rename_i hzero
  have hfirst : Passes c (c.advance 1) := .step (by rw [not_not.1 hzero]; decide)
  split at h
  · rename_i hmark
    exact scanBased_spec (by decide +kernel) (hfirst.next (clean_of_or hmark rfl rfl)) h
  split at h
  · rename_i hmark
    exact scanBased_spec (by decide) (hfirst.next (clean_of_or hmark rfl rfl)) h
  split at h
  · rename_i hmark
    exact scanBased_spec (by decide) (hfirst.next (clean_of_or hmark rfl rfl)) h
  split at h
  · rename_i hoctal
    have hsecond := hfirst.next (not_isForeignBlank (by decide) (Bool.and_eq_true_iff.1 hoctal).1)
    exact endNumber_spec (hsecond.trans (.skipWhile fun _ => not_isForeignBlank (by decide))) h
  · exact scanDecimal_spec h

/-! ### Marks -/

/-- The mark that stands here. -/
theorem markAt?_spec {text : String} (h : markAt? c = some text) :
    text.toList <+: c.rest ∧ ∀ ch ∈ text.toList, isForeignBlank ch = false := by
  unfold markAt? at h
  split at h
  · rename_i found hfound
    cases h
    have hsees : c.sees text = true := List.find?_some hfound
    refine ⟨List.isPrefixOf_iff_prefix.1 hsees, ?_⟩
    have hclean : longMarks.all (fun text => text.toList.all fun ch => !isForeignBlank ch) = true := by
      decide
    have hchars := List.all_eq_true.1 hclean text (List.mem_of_find?_eq_some hfound)
    exact fun ch hch => by simpa using List.all_eq_true.1 hchars ch hch
  · split at h
    · rename_i hshort
      cases h
      obtain ⟨hend, hmark⟩ := Bool.and_eq_true_iff.1 hshort
      have hchars : c.peek.toString.toList = [c.peek] := by simp
      rw [hchars]
      constructor
      · cases hrest : c.rest with
        | nil => simp [Cursor.atEnd, hrest] at hend
        | cons ch more => exact ⟨more, by simp [Cursor.peek, hrest]⟩
      · have hclean : shortMarks.all (fun ch => !isForeignBlank ch) = true := by decide
        rw [List.forall_mem_singleton]
        simpa using List.all_eq_true.1 hclean _ (List.contains_iff_mem.1 hmark)
    · cases h

/-- No mark of a bare text is a slash, and none opens a substitution. -/
theorem scanMark_spec {braces braces' : List Brace} {token : Token} (hbare : IsBare c.rest)
    (hbraces : Brace.substitution ∉ braces) (h : scanMark braces c = .ok (token, stop, braces')) :
    Passes c stop ∧ IsInner token ∧ Brace.substitution ∉ braces' := by
  unfold scanMark at h
  split at h
  · cases h
  · rename_i text hmark
    obtain ⟨hhere, hclean⟩ := markAt?_spec hmark
    cases h
    refine ⟨.run hhere hclean, ⟨?_, rfl⟩, ?_⟩
    · have hslash : '/' ∉ text.toList := fun hmem =>
        hbare.not_mem (hhere.subset hmem) (by decide)
      have hdivide : text ≠ "/" := by rintro rfl; exact hslash (by decide)
      have hassign : text ≠ "/=" := by rintro rfl; exact hslash (by decide)
      simp [Grammar.isSlash, Token.isMark, Token.between, hdivide, hassign]
    · split
      · simpa using hbraces
      split
      · exact fun hmem => hbraces (List.mem_of_mem_drop hmem)
      · exact hbraces

/-! ### Tokens and gaps -/

/-- A token that leaves the braces as they are. -/
theorem ok_of_keep {braces braces' : List Brace} {token : Token} {result : Scan (Token × Cursor)}
    (h : (do
      let (token, stop) ← result
      return (token, stop, braces)) = .ok (token, stop, braces')) :
    result = .ok (token, stop) ∧ braces' = braces := by
  cases result with
  | error e => cases h
  | ok r => cases h; exact ⟨rfl, rfl⟩

/-- The next token of a bare text. -/
theorem scanToken_spec {braces braces' : List Brace} {token : Token} (hbare : IsBare c.rest)
    (hbraces : Brace.substitution ∉ braces) (h : scanToken braces c = .ok (token, stop, braces')) :
    Passes c stop ∧ Grammar.isSlash token = false ∧ Brace.substitution ∉ braces' ∧
      (token.isEnd = true → stop.rest = []) := by
  unfold scanToken at h
  extract_lets keep ch at h
  have hinner : ∀ {token : Token}, IsInner token → token.isEnd = true → stop.rest = [] := by
    intro token htoken hend
    rw [htoken.2] at hend
    cases hend
  split at h
  · rename_i hend
    cases h
    exact ⟨.refl, rfl, hbraces, fun _ => List.isEmpty_iff.1 hend⟩
  rename_i hend
  have hmem : ch ∈ c.rest := by
    cases hrest : c.rest with
    | nil => simp [Cursor.atEnd, hrest] at hend
    | cons d more => simp [ch, Cursor.peek, hrest]
  have hplain := hbare.not_mem hmem
  split at h
  · obtain ⟨hword, rfl⟩ := ok_of_keep h
    obtain ⟨hpasses, htoken⟩ := scanWord_spec hword
    exact ⟨hpasses, htoken.1, hbraces, hinner htoken⟩
  split at h
  · rename_i hquote
    exact absurd (by rcases hquote with hquote | hquote <;> simp [hquote, quoteMarks]) hplain
  split at h
  · obtain ⟨hnumber, rfl⟩ := ok_of_keep h
    obtain ⟨hpasses, htoken⟩ := scanNumber_spec hnumber
    exact ⟨hpasses, htoken.1, hbraces, hinner htoken⟩
  split at h
  · rename_i htemplate
    rcases htemplate with hquote | ⟨-, hopen⟩
    · exact absurd (by simp [hquote, quoteMarks]) hplain
    · exact absurd (List.mem_of_mem_head? hopen) hbraces
  · obtain ⟨hpasses, htoken, hbraces'⟩ := scanMark_spec hbare hbraces h
    exact ⟨hpasses, htoken.1, hbraces', hinner htoken⟩

theorem passes_passLineEnd (h : isLineEnd c.peek = true) : Passes c c.passLineEnd := by
  have hclean : isForeignBlank c.peek = false := by simp [isForeignBlank, h]
  unfold Cursor.passLineEnd
  split
  · rename_i hpair
    exact (Passes.step hclean).next (by rw [hpair.2]; decide)
  · exact Passes.step hclean

theorem passes_skipGapFrom {isModule lineBegins : Bool} {budget : List Char} (hbare : IsBare c.rest)
    (h : skipGapFrom isModule budget lineBegins c = .ok stop) : Passes c stop := by
  induction budget generalizing lineBegins c with
  | nil => cases h; exact .refl
  | cons _ budget ih =>
      unfold skipGapFrom at h
      split at h
      · cases h
        exact .refl
      rename_i ch more hrest
      have hpeek : c.peek = ch := by simp [Cursor.peek, hrest]
      have hslash : ∀ text : String, c.sees text = true → '/' ∉ text.toList := by
        intro text hsees hmem
        exact hbare.not_mem ((List.isPrefixOf_iff_prefix.1 hsees).subset hmem) (by decide)
      split at h
      · rename_i hspace
        have hstep : Passes c (c.advance 1) := .step (by simp [hpeek, isForeignBlank, hspace])
        exact hstep.trans (ih (hstep.bare hbare) h)
      split at h
      · rename_i hend
        have hstep : Passes c c.passLineEnd := passes_passLineEnd (hpeek ▸ hend)
        exact hstep.trans (ih (hstep.bare hbare) h)
      split at h
      · exact absurd (by decide) (hslash "//" ‹_›)
      split at h
      · exact absurd (by decide) (hslash "/*" ‹_›)
      split at h
      · rename_i hclosing
        have hsees := List.isPrefixOf_iff_prefix.1 (Bool.and_eq_true_iff.1 hclosing).2
        exact absurd hsees.isInfix hbare.2.2
      split at h
      · rename_i hopening
        have hsees := List.isPrefixOf_iff_prefix.1 (Bool.and_eq_true_iff.1 hopening).2
        exact absurd hsees.isInfix hbare.2.1
      · cases h
        exact .refl

end Scanner

end Source

/-! ## The parser on a bare text -/

namespace Grammar

open Source

/-- Is the rest of the text bare, with as many foreign blanks as given? -/
structure IsBareAt (count : Nat) (s : State) : Prop where
  /-- It is bare. -/
  bare : IsBare s.cursor.rest
  /-- It has as many foreign blanks. -/
  countP : s.cursor.rest.countP isForeignBlank = count
  /-- No substitution is open. -/
  braces : Brace.substitution ∉ s.braces

/-- Is this so, and nothing left where the lookahead is the end? -/
structure ReadsBare (count : Nat) (s : State) : Prop extends IsBareAt count s where
  /-- The lookahead is no slash. -/
  slash : isSlash s.lookahead = false
  /-- At the end nothing is left. -/
  ended : s.lookahead.isEnd = true → s.cursor.rest = []

variable {count : Nat} {s s' : State} {token : Token}

theorem inStrict_isSlash (token : Token) :
    isSlash (Token.inStrict token) = isSlash token ∧
      (Token.inStrict token).isEnd = token.isEnd := by
  unfold Token.inStrict
  split
  · rename_i text htext
    split
    · unfold isSlash Token.isMark Token.isEnd
      rw [htext]
      exact ⟨rfl, rfl⟩
    · exact ⟨rfl, rfl⟩
  · exact ⟨rfl, rfl⟩

theorem readsBare_of_nextToken (hs : IsBareAt count s) (h : nextToken s = .ok (token, s')) :
    ReadsBare count s' := by
  obtain ⟨start, found, stop, braces, hgap, hfound, -, rfl⟩ := nextToken_cases h
  have hstart : Passes s.cursor start := passes_skipGapFrom hs.bare hgap
  obtain ⟨hstop, hslash, hbraces, hended⟩ := scanToken_spec (hstart.bare hs.bare) hs.braces hfound
  have hpasses := hstart.trans hstop
  have hlook : isSlash (if s.context.strict then Token.inStrict found else found) = isSlash found ∧
      (if s.context.strict then Token.inStrict found else found).isEnd = found.isEnd := by
    split
    · exact inStrict_isSlash found
    · exact ⟨rfl, rfl⟩
  exact
    { bare := hpasses.bare hs.bare
      countP := hpasses.countP.trans hs.countP
      braces := hbraces
      slash := hlook.1.trans hslash
      ended := fun hend => hended (hlook.2 ▸ hend) }

instance : Steady (ReadsBare count) where
  frame hs hcursor hbraces hlook _ :=
    { bare := hcursor ▸ hs.bare
      countP := hcursor ▸ hs.countP
      braces := hbraces ▸ hs.braces
      slash := hlook ▸ hs.slash
      ended := by rw [hlook, hcursor]; exact hs.ended }
  next hs := readsBare_of_nextToken hs.toIsBareAt
  after hs h := by
    obtain ⟨start, stop, braces, hgap, hfound, rfl⟩ := tokenAfter_cases h
    have hstart := passes_skipGapFrom hs.bare hgap
    exact { hs with braces := (scanToken_spec (hstart.bare hs.bare) hs.braces hfound).2.2.1 }
  regex hs hslash _ := by
    rw [hs.slash] at hslash
    cases hslash

instance : Spoken Lexicon.anything (ReadsBare count) := spoken_anything _

/-- An accepted bare text has no foreign blank. -/
theorem no_foreign_of_parse {goal : Goal} {text : String} {t : Tree} (hbare : IsBare text.toList)
    (h : parse goal text = .ok t) : ∀ c ∈ text.toList, isForeignBlank c = false := by
  have hstart : IsBareAt (text.toList.countP isForeignBlank) (State.start text.toList) :=
    ⟨hbare, rfl, List.not_mem_nil⟩
  obtain ⟨-, s, hs, hend⟩ := made_of_parse (I := ReadsBare (text.toList.countP isForeignBlank)) h
    fun _ _ => readsBare_of_nextToken hstart
  have hnone := hs.countP
  rw [hs.ended hend, List.countP_nil, eq_comm, List.countP_eq_zero] at hnone
  exact fun c hc => Bool.eq_false_iff.2 (hnone c hc)

end Grammar

end NameRecovery
