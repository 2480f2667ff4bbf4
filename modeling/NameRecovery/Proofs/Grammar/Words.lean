import NameRecovery.Proofs.Grammar.Yields
import NameRecovery.Proofs.Printer.Reading

/-!
# Words at the start of a text

The first tokens of a text whose first words are known, whatever comes behind them.

* `skipGap_word`, `scanToken_word` — the scanner at a word;
* `nextToken_word` — the word becomes the lookahead, and the rest of the text is left;
* `run_unless`, `collect_cases` — steps of a parser that depend on the lookahead.
-/

namespace NameRecovery

open Source Reader

/-! ## The scanner at a word -/

section Scanning

/-- Does the text consist of small letters? -/
def IsPlainWord (word : List Char) : Prop :=
  ∃ c cs, word = c :: cs ∧ ∀ d ∈ word, d.isLower = true

variable {c : Cursor} {word rest : List Char}

theorem isLower_toNat {ch : Char} (h : ch.isLower = true) : 97 ≤ ch.toNat ∧ ch.toNat ≤ 122 := by
  unfold Char.isLower at h
  simp only [ge_iff_le, Bool.and_eq_true, decide_eq_true_eq] at h
  exact ⟨h.1, h.2⟩

theorem isNameStart_isLower {ch : Char} (h : ch.isLower = true) : isNameStart ch = true := by
  have hrange := isLower_toNat h
  rw [isNameStart_plain (by omega)]
  unfold Char.isAlpha
  simp [h]

/-- At a small letter there is no gap. -/
theorem skipGapFrom_letter {ch b : Char} {budget : List Char} (isModule lineBegins : Bool)
    (hch : ch.isLower = true) (hrest : c.rest = ch :: rest) :
    skipGapFrom isModule (b :: budget) lineBegins c = .ok c := by
  have hrange := isLower_toNat hch
  have hspace : isSpace ch = false := by
    simp [isSpace]
    omega
  have hend : isLineEnd ch = false := by
    simp [isLineEnd]
    omega
  have hmark : ∀ d : Char, d.toNat < 97 → d ≠ ch := by
    rintro d hd rfl
    omega
  unfold skipGapFrom
  rw [hrest]
  simp [hspace, hend, Cursor.sees, hrest, hmark '/' (by decide), hmark '-' (by decide),
    hmark '<' (by decide)]

/-- The gap before a word is a blank, or nothing. -/
theorem skipGap_word {gap : List Char} (isModule : Bool) (hword : IsPlainWord word)
    (hgap : gap = [] ∨ gap = [' ']) (hrest : c.rest = gap ++ (word ++ rest)) :
    skipGap isModule c = .ok (c.advance gap.length) := by
  obtain ⟨ch, cs, rfl, hlower⟩ := hword
  have hch := hlower ch List.mem_cons_self
  unfold skipGap
  rcases hgap with rfl | rfl
  · rw [hrest]
    exact skipGapFrom_letter isModule _ hch hrest
  · have hnext : (c.advance 1).rest = ch :: (cs ++ rest) := by simp [Cursor.advance, hrest]
    rw [hrest, List.singleton_append, skipGapFrom, hrest]
    exact @skipGapFrom_letter _ _ ch ch _ isModule _ hch hnext

theorem scanWord_plain (hword : IsPlainWord word) (hafter : ∀ d ∈ rest.head?, isNamePart d = false)
    (hrest : c.rest = word ++ rest) :
    scanWord c = .ok (Token.between c (c.advance word.length) (wordLexeme (String.ofList word)),
      c.advance word.length) := by
  obtain ⟨ch, cs, rfl, hlower⟩ := hword
  have hrun : (c.rest.takeWhile fun d => isNamePart d && d != '\\') = ch :: cs := by
    rw [hrest]
    refine Text.takeWhile_run (fun d hd => ?_) fun d hd => ?_
    · have hrange := isLower_toNat (hlower d hd)
      have hslash : d ≠ '\\' := by rintro rfl; revert hrange; decide
      simp [isNamePart, isNameStart_isLower (hlower d hd), hslash]
    · simp [hafter d hd]
  have hstop : (c.advance (cs.length + 1)).peek ≠ '\\' := by
    have hslash : isNamePart '\\' = true := by
      rw [isNamePart_plain (by decide), isNameStart_plain (by decide)]
      decide
    have hleft : (c.advance (cs.length + 1)).rest = rest := by simp [Cursor.advance, hrest]
    unfold Cursor.peek
    rw [hleft]
    cases rest with
    | nil => decide
    | cons d more =>
        rintro rfl
        rw [hafter _ rfl] at hslash
        cases hslash
  have hname : scanName c = .ok (ch :: cs, c.advance (cs.length + 1)) := by
    unfold scanName
    rw [hrun]
    exact if_neg hstop
  unfold scanWord
  rw [hname]
  simp [bind, Except.bind, pure, Except.pure, Cursor.advance]

theorem scanToken_word (braces : List Brace) (hword : IsPlainWord word)
    (hafter : ∀ d ∈ rest.head?, isNamePart d = false) (hrest : c.rest = word ++ rest) :
    scanToken braces c = .ok (Token.between c (c.advance word.length)
      (wordLexeme (String.ofList word)), c.advance word.length, braces) := by
  obtain ⟨ch, cs, rfl, hlower⟩ := id hword
  have hpeek : c.peek = ch := by simp [Cursor.peek, hrest]
  have hend : c.atEnd = false := by simp [Cursor.atEnd, hrest]
  have hstart : isNameStart ch = true := isNameStart_isLower (hlower ch List.mem_cons_self)
  simp only [scanToken, hend, hpeek, hstart, scanWord_plain hword hafter hrest]
  rfl

end Scanning

namespace Grammar

/-! ## The parser at a word -/

variable {rest : List Char}

/-- What is known when a word has become the lookahead. -/
structure SeesWord (s s' : State) (word : String) (rest : List Char) : Prop where
  /-- The word is the lookahead. -/
  lexeme : s'.lookahead.lexeme = wordLexeme word
  /-- The rest of the text is left. -/
  rest : s'.cursor.rest = rest
  /-- The context is what it was. -/
  context : s'.context = s.context

theorem text_of_wordLexeme {word text : String} (h : wordLexeme word = .name text) :
    text = word := by
  unfold wordLexeme at h
  split at h
  · cases h; rfl
  split at h
  · cases h
  split at h
  · cases h
  split at h
  · cases h
  · cases h; rfl

/-- A word that strict code does not reserve stays what it is. -/
theorem lexeme_inStrict {token : Token} {word : String} (h : token.lexeme = wordLexeme word)
    (hreserved : isStrictReserved word = false) :
    (Token.inStrict token).lexeme = wordLexeme word := by
  unfold Token.inStrict
  split
  · next text hname =>
    rw [h] at hname
    rw [text_of_wordLexeme hname, hreserved, if_neg Bool.false_ne_true, h]
  · exact h

theorem isPlainWord_of_all {word : String}
    (h : (!word.toList.isEmpty && word.toList.all Char.isLower) = true) :
    IsPlainWord word.toList := by
  rw [Bool.and_eq_true, List.all_eq_true] at h
  cases hword : word.toList with
  | nil => rw [hword] at h; exact absurd h.1 (by decide)
  | cons c cs => exact ⟨c, cs, rfl, hword ▸ h.2⟩

/-- A word behind a blank, or at the start of the text, becomes the lookahead. -/
theorem nextToken_word {gap : List Char} {s s' : State} {token : Token} {c : Char} (word : String)
    (hgap : gap = [] ∨ gap = [' '])
    (hletters : (!word.toList.isEmpty && word.toList.all Char.isLower) = true)
    (hreserved : isStrictReserved word = false) (hc : isNamePart c = false)
    (hrest : s.cursor.rest = gap ++ (word.toList ++ c :: rest)) (h : nextToken s = .ok (token, s')) :
    token = s.lookahead ∧ SeesWord s s' word (c :: rest) := by
  have hword : IsPlainWord word.toList := isPlainWord_of_all hletters
  have hafter : ∀ d ∈ (c :: rest).head?, isNamePart d = false := by
    rintro d ⟨⟩
    exact hc
  have hnext : (s.cursor.advance gap.length).rest = word.toList ++ c :: rest := by
    simp [Cursor.advance, hrest]
  unfold nextToken at h
  obtain ⟨_, s₁, hget, h⟩ := run_bind h
  cases hget
  obtain ⟨start, s₂, hgap', h⟩ := run_bind h
  rw [skipGap_word _ hword hgap hrest] at hgap'
  cases hgap'
  obtain ⟨found, s₃, hfound, h⟩ := run_bind h
  rw [scanToken_word _ hword hafter hnext, String.ofList_toList] at hfound
  cases hfound
  cases h
  refine ⟨rfl, ?_, by simp [Cursor.advance, hrest], rfl⟩
  change (if s.context.strict then Token.inStrict _ else _).lexeme = wordLexeme word
  split
  · exact lexeme_inStrict rfl hreserved
  · rfl

/-! ## Steps of a parser -/

/-- A parser behind a complaint goes on only if there is nothing to complain about. -/
theorem run_unless {α : Type} {c : Prop} [Decidable c] {p : Parse Unit} {q : Unit → Parse α}
    {s s' : State} {a : α} (hp : Yields p fun _ => False)
    (h : (if c then p >>= q else q ()) s = .ok (a, s')) : q () s = .ok (a, s') := by
  split at h
  · obtain ⟨u, s₁, hrun, -⟩ := run_bind h
    exact (hp _ _ _ hrun).elim
  · exact h

/-- What is collected first is what the first step yields. -/
theorem collect_cases {α : Type} {step : Parse (Option α)} {budget : Nat} {s s' : State}
    {values : List α} (h : collect step budget s = .ok (values, s')) :
    (step s = .ok (none, s') ∧ values = []) ∨
      ∃ a more s₁, step s = .ok (some a, s₁) ∧ values = a :: more := by
  cases budget with
  | zero => cases h
  | succ budget =>
      unfold collect at h
      obtain ⟨value, s₁, hstep, h⟩ := run_bind h
      cases value with
      | none => cases h; exact .inl ⟨hstep, rfl⟩
      | some a =>
          obtain ⟨more, s₂, -, h⟩ := run_bind h
          cases h
          exact .inr ⟨a, more, s₁, hstep, rfl⟩

end Grammar

end NameRecovery
