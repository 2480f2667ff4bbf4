import NameRecovery.Proofs.Grammar.Front

/-!
# Literals are spelled like tokens

The spelling of a literal starts a text: it is a word or a number, starts with a quote, or
is a regular expression, which is read where no comment starts.

* `skipGapFrom_comment` — behind a gap no comment starts;
* `Lexicon.front` — the lexicon in which literals start a text;
* `made_front` — every tree of a text is made of it.
-/

namespace NameRecovery

namespace Source

/-! ## No comment starts behind a gap -/

section Gap

variable {c stop : Cursor}

@[simp] theorem length_advance (c : Cursor) (n : Nat) :
    (c.advance n).rest.length = c.rest.length - n :=
  List.length_drop

theorem length_passLineEnd_le (c : Cursor) : c.passLineEnd.rest.length ≤ c.rest.length - 1 := by
  unfold Cursor.passLineEnd
  split <;> simp only [Cursor.newLine, length_advance] <;> omega

theorem length_skipLineComment_le (c : Cursor) :
    (skipLineComment c).rest.length ≤ c.rest.length := by
  have hstop : (c.skipWhile fun ch => !isLineEnd ch).rest.length ≤ c.rest.length := by
    rw [Cursor.skipWhile, length_advance]
    exact Nat.sub_le _ _
  unfold skipLineComment
  extract_lets stop
  split
  · exact hstop
  · exact (length_passLineEnd_le stop).trans ((Nat.sub_le _ _).trans hstop)

theorem length_skipBlockComment_le {index line lineStart : Nat} {cs : List Char}
    (h : skipBlockComment index line lineStart cs = .ok stop) : stop.rest.length ≤ cs.length := by
  fun_induction skipBlockComment index line lineStart cs with
  | case1 => cases h
  | case2 => cases h; simp only [List.length_cons]; omega
  | case3 _ _ _ _ ih => have := ih h; simp only [List.length_cons]; omega
  | case4 _ _ _ _ _ _ _ _ ih => exact (ih h).trans (Nat.le_succ _)
  | case5 _ _ _ _ _ _ _ _ ih => exact (ih h).trans (Nat.le_succ _)

/-- Behind a gap no comment starts. -/
theorem skipGapFrom_comment {isModule lineBegins : Bool} {budget : List Char}
    (hbudget : c.rest.length ≤ budget.length)
    (h : skipGapFrom isModule budget lineBegins c = .ok stop) :
    stop.sees "//" = false ∧ stop.sees "/*" = false := by
  induction budget generalizing c lineBegins with
  | nil =>
      have hnil : c.rest = [] := List.eq_nil_of_length_eq_zero (Nat.le_zero.1 hbudget)
      cases h
      simp [Cursor.sees, hnil]
  | cons _ budget ih =>
      rw [List.length_cons] at hbudget
      unfold skipGapFrom at h
      split at h
      · rename_i hnil
        cases h
        simp [Cursor.sees, hnil]
      rename_i ch cs hrest
      have hlength : 0 < c.rest.length := by rw [hrest]; exact Nat.succ_pos _
      split at h
      · exact ih (by rw [length_advance]; omega) h
      split at h
      · exact ih ((length_passLineEnd_le c).trans (by omega)) h
      split at h
      · exact ih ((length_skipLineComment_le _).trans (by rw [length_advance]; omega)) h
      rename_i hline
      split at h
      · extract_lets body at h
        cases hbody : skipBlockComment body.index body.line body.lineStart body.rest with
        | error e => rw [hbody] at h; cases h
        | ok next =>
            rw [hbody] at h
            have hnext := length_skipBlockComment_le hbody
            rw [length_advance] at hnext
            exact ih (by omega) h
      rename_i hblock
      split at h
      · exact ih ((length_skipLineComment_le _).trans (by rw [length_advance]; omega)) h
      split at h
      · exact ih ((length_skipLineComment_le _).trans (by rw [length_advance]; omega)) h
      · cases h
        exact ⟨Bool.eq_false_iff.2 hline, Bool.eq_false_iff.2 hblock⟩

end Gap

/-! ## The spelling of a literal starts a text -/

section Scanning

variable {c stop : Cursor} {token : Token}

theorem index_lt_nameEscape {allowed : Char → Bool} {ch : Char}
    (h : nameEscape allowed c = .ok (ch, stop)) : c.index < stop.index := by
  unfold nameEscape at h
  split at h
  · cases h
  split at h
  · have hstop := index_le_bracedEscape h
    rw [index_advance] at hstop
    omega
  · split at h
    · rename_i code stop' hhex
      have hstop := index_hexEscape hhex
      rw [index_advance] at hstop
      extract_lets ch' at h
      split at h
      · cases h
      · obtain ⟨-, rfl⟩ := Prod.mk.inj (Except.ok.inj h)
        omega
    · cases h

/-- A name is not longer than what it is read from. -/
theorem index_le_escapedNameFrom {budget done chars : List Char}
    (h : escapedNameFrom budget done c = .ok (chars, stop)) :
    c.index + chars.length ≤ stop.index + done.length := by
  induction budget generalizing done c with
  | nil => cases h; simp
  | cons _ budget ih =>
      unfold escapedNameFrom at h
      split at h
      · cases h
        simp
      · cases hescape : nameEscape (if done.isEmpty then isNameStart else isNamePart) (c.advance 1)
            with
        | error e => rw [hescape] at h; cases h
        | ok r =>
            rw [hescape] at h
            have hafter := index_lt_nameEscape hescape
            have hrest := ih h
            rw [index_advance] at hafter
            rw [List.length_cons] at hrest
            omega
      · split at h
        · have hrest := ih h
          rw [List.length_cons, index_advance] at hrest
          omega
        · cases h
          simp

/-- A name that starts with an escape is shorter than what it is read from. -/
theorem index_lt_scanName {cs chars : List Char} (hrest : c.rest = '\\' :: cs)
    (h : scanName c = .ok (chars, stop)) : c.index + chars.length < stop.index := by
  have hplain : (c.rest.takeWhile fun ch => isNamePart ch && ch != '\\') = [] := by
    rw [hrest, List.takeWhile_cons_of_neg]
    simp
  have hpeek : (c.advance 0).peek = '\\' := by simp [Cursor.advance, Cursor.peek, hrest]
  unfold scanName at h
  simp only [hplain, List.length_nil, hpeek, if_true] at h
  rw [hrest, escapedNameFrom, hrest] at h
  cases hescape : nameEscape isNameStart (c.advance 1) with
  | error e => simp [hescape, bind, Except.bind] at h
  | ok r =>
      simp only [List.isEmpty_nil, if_true, hescape] at h
      have hafter := index_lt_nameEscape hescape
      have hstop := index_le_escapedNameFrom h
      rw [index_advance] at hafter
      rw [List.length_singleton] at hstop
      omega

/-- A word that is no name is spelled without escapes. -/
theorem scanWord_spans {ch : Char} {cs : List Char} (hrest : c.rest = ch :: cs)
    (h : scanWord c = .ok (token, stop)) (hname : ∀ text, token.lexeme ≠ .name text) :
    ch ≠ '\\' ∧ Spans c stop token := by
  cases hchars : scanName c with
  | error e => simp [scanWord, hchars, bind, Except.bind] at h
  | ok r =>
      obtain ⟨chars, middle⟩ := r
      simp only [scanWord, hchars, bind, Except.bind] at h
      obtain ⟨rfl, rfl⟩ := Prod.mk.inj (ok_of_unless h)
      split at h
      · rename_i text htext
        exact absurd htext (hname text)
      split at h
      · cases h
      rename_i hspelled
      have hindex : c.index + chars.length = middle.index := by simpa using hspelled
      have hchars' : 0 < chars.length := by
        apply List.length_pos_of_ne_nil
        rintro rfl
        exact hname "" rfl
      refine ⟨?_, rfl, by omega⟩
      rintro rfl
      have hshort := index_lt_scanName hrest hchars
      omega

/-- The second character of a regular expression is not the one that closes it. -/
theorem index_lt_regexBody {budget : List Char} {inClass : Bool}
    (h : regexBody budget inClass c = .ok stop) : c.index < stop.index := by
  induction budget generalizing inClass c with
  | nil => cases h
  | cons _ budget ih =>
      unfold regexBody at h
      split at h
      · cases h
      · split at h
        · cases h
        · have hstop := ih h
          rw [index_advance] at hstop
          omega
      · split at h
        · cases h
        split at h
        · have hstop := ih h
          rw [index_advance] at hstop
          omega
        split at h
        · cases h
          simp
        · have hstop := ih h
          rw [index_advance] at hstop
          omega

theorem index_le_regexFlags {budget : List Char} (h : regexFlags budget c = .ok stop) :
    c.index ≤ stop.index := by
  induction budget generalizing c with
  | nil => cases h; exact Nat.le_refl _
  | cons _ budget ih =>
      unfold regexFlags at h
      split at h
      · cases h
        exact Nat.le_refl _
      · split at h
        · split at h <;> cases h
        · cases h
      · split at h
        · have hstop := ih h
          rw [index_advance] at hstop
          omega
        · cases h
          exact Nat.le_refl _

/-- A regular expression has a character behind its slash. -/
theorem scanRegex_front {cs : List Char} (hrest : c.rest = '/' :: cs)
    (hcomment : c.sees "//" = false ∧ c.sees "/*" = false)
    (h : scanRegex c = .ok (token, stop)) :
    (∃ pattern flags, token.lexeme = .regex pattern flags) ∧ IsFront token.raw.toList := by
  cases hbody : regexBody c.rest false (c.advance 1) with
  | error e => simp [scanRegex, hbody, bind, Except.bind] at h
  | ok bodyEnd =>
      cases hflags : regexFlags bodyEnd.rest bodyEnd with
      | error e => simp [scanRegex, hbody, hflags, bind, Except.bind] at h
      | ok flagsEnd =>
          simp only [scanRegex, hbody, hflags, bind, Except.bind] at h
          split at h
          · cases h
            refine ⟨⟨_, _, rfl⟩, ?_⟩
            have hbodyEnd := index_lt_regexBody hbody
            have hstop := index_le_regexFlags hflags
            rw [index_advance] at hbodyEnd
            obtain ⟨n, hn⟩ : ∃ n, stop.index - c.index = n + 2 :=
              ⟨stop.index - c.index - 2, by omega⟩
            cases cs with
            | nil =>
                rw [hrest, regexBody] at hbody
                simp [Cursor.advance, hrest] at hbody
            | cons d ds =>
                simp only [Cursor.sees, hrest] at hcomment
                have hd : d ≠ '/' ∧ d ≠ '*' := by
                  constructor
                  · rintro rfl
                    simp at hcomment
                  · rintro rfl
                    simp at hcomment
                simpa [Token.between, Cursor.textTo, hn, hrest] using IsFront.slash hd.1 hd.2
          · cases h

theorem Spans.isFront {ch : Char} {cs : List Char} (h : Spans c stop token)
    (hrest : c.rest = ch :: cs) (hfront : ∀ more, IsFront (ch :: more)) :
    IsFront token.raw.toList := by
  rw [h.exists_raw hrest]
  exact hfront _

end Scanning

end Source

/-! ## The lexicon of such spellings -/

namespace Grammar

open Source

/-- The lexicon in which literals start a text. -/
def Lexicon.front : Lexicon where
  name _ := True
  raw raw := IsFront raw.toList
  piece _ := True
  words _ _ := trivial

variable {c stop : Cursor} {token : Token} {s s' : State}

theorem front_covers_of_name {text : String} (h : token.lexeme = .name text) :
    Lexicon.front.Covers token := by
  rw [Lexicon.Covers, h]
  trivial

theorem front_covers_of_raw (h : IsFront token.raw.toList) : Lexicon.front.Covers token := by
  unfold Lexicon.Covers
  split <;> trivial

theorem isSlash_of_ne_mark (h : ∀ text, token.lexeme ≠ .mark text) : isSlash token = false := by
  unfold isSlash Token.isMark
  rw [beq_eq_false_iff_ne.2 (h "/"), beq_eq_false_iff_ne.2 (h "/=")]
  rfl

/-- The literals among the tokens are spelled so that they start a text. -/
theorem scanToken_covers {braces braces' : List Brace}
    (h : scanToken braces c = .ok (token, stop, braces')) :
    Lexicon.front.Covers token ∧ (isSlash token = true → c.rest.head? = some '/') := by
  unfold scanToken at h
  extract_lets keep ch at h
  split at h
  · cases h
    exact ⟨trivial, nofun⟩
  rename_i hend
  obtain ⟨d, ds, hrest⟩ : ∃ d ds, c.rest = d :: ds := by
    cases hrest : c.rest with
    | nil => simp [Cursor.atEnd, hrest] at hend
    | cons d ds => exact ⟨d, ds, rfl⟩
  have hpeek : c.peek = d := by simp [Cursor.peek, hrest]
  have hother : ∀ {token : Token}, (∀ text, token.lexeme ≠ .mark text) → isSlash token = true →
      c.rest.head? = some '/' := by
    intro token hmark hslash
    rw [isSlash_of_ne_mark hmark] at hslash
    cases hslash
  split at h
  · rename_i hstart
    obtain ⟨hword, rfl⟩ := ok_of_keep h
    refine ⟨?_, fun hslash => ?_⟩
    · by_cases hname : ∃ text, token.lexeme = .name text
      · obtain ⟨text, htext⟩ := hname
        exact front_covers_of_name htext
      · obtain ⟨hplain, hspans⟩ := scanWord_spans hrest hword fun text htext => hname ⟨text, htext⟩
        have hpart : isNamePart d = true := by
          rw [← hpeek, isNamePart, show isNameStart c.peek = true from hstart]
          rfl
        exact front_covers_of_raw (hspans.isFront hrest fun _ => .word hpart hplain)
    · obtain ⟨-, hinner⟩ := scanWord_spec hword
      rw [hinner.1] at hslash
      cases hslash
  split at h
  · rename_i hquote
    obtain ⟨hstring, rfl⟩ := ok_of_keep h
    obtain ⟨⟨value, octal, hlexeme⟩, hspans⟩ := scanString_value hstring
    refine ⟨front_covers_of_raw (hspans.isFront hrest fun _ => .mark ?_), hother (by simp [hlexeme])⟩
    rw [← hpeek]
    rcases hquote with hquote | hquote
    · rw [show c.peek = '\'' from hquote]
      decide
    · rw [show c.peek = '"' from hquote]
      decide
  split at h
  · rename_i hdigit
    obtain ⟨hnumber, rfl⟩ := ok_of_keep h
    have hhead : c.peek.isDigit = true ∨ c.peek = '.' := by
      rw [Bool.or_eq_true, Bool.and_eq_true, beq_iff_eq] at hdigit
      exact hdigit.imp_right And.left
    obtain ⟨⟨octal, hlexeme⟩, hspans⟩ := scanNumber_value hhead hnumber
    refine ⟨front_covers_of_raw (hspans.isFront hrest ?_), hother (by simp [hlexeme])⟩
    intro more
    rw [hpeek] at hhead
    rcases hhead with hdigit | rfl
    · refine .word (Reader.digit_isNamePart hdigit).1 ?_
      rintro rfl
      cases hdigit
    · exact .mark (by decide)
  split at h
  · obtain ⟨raw, head, tail, hlexeme⟩ := scanTemplate_piece h
    exact ⟨by rw [Lexicon.Covers, hlexeme]; trivial, hother (by simp [hlexeme])⟩
  · unfold scanMark at h
    split at h
    · cases h
    · rename_i text hmark
      obtain ⟨⟨more, hmore⟩, -⟩ := markAt?_spec hmark
      cases h
      refine ⟨trivial, fun hslash => ?_⟩
      simp only [isSlash, Token.isMark, Token.between, Bool.or_eq_true, beq_iff_eq,
        Lexeme.mark.injEq] at hslash
      rw [← hmore]
      rcases hslash with rfl | rfl <;> rfl

/-- Is the lookahead spelled like that, and does no comment start where it is a slash? -/
structure Spelled (s : State) : Prop where
  /-- It is spelled like that. -/
  covers : Lexicon.front.Covers s.lookahead
  /-- Where it is a slash, a slash stands. -/
  slash : isSlash s.lookahead = true → s.lookaheadStart.rest.head? = some '/'
  /-- No comment starts there. -/
  comment : s.lookaheadStart.sees "//" = false ∧ s.lookaheadStart.sees "/*" = false

theorem covers_inStrict (h : Lexicon.front.Covers token) :
    Lexicon.front.Covers (Token.inStrict token) := by
  unfold Token.inStrict
  split
  · split
    · trivial
    · exact h
  · exact h

theorem spelled_of_nextToken (h : nextToken s = .ok (token, s')) : Spelled s' := by
  obtain ⟨start, found, stop, braces, hgap, hfound, -, rfl⟩ := nextToken_cases h
  obtain ⟨hcovers, hslash⟩ := scanToken_covers hfound
  refine ⟨?_, ?_, skipGapFrom_comment (Nat.le_refl _) hgap⟩
  · change Lexicon.front.Covers (if s.context.strict then Token.inStrict found else found)
    split
    · exact covers_inStrict hcovers
    · exact hcovers
  · change isSlash (if s.context.strict then Token.inStrict found else found) = true → _
    split
    · rw [(inStrict_isSlash found).1]
      exact hslash
    · exact hslash

/-- Reading a regular expression passes it, and the token behind it is read. -/
theorem nextRegex_cases (h : nextRegex s = .ok (token, s')) :
    ∃ stop s₁, scanRegex s.lookaheadStart = .ok (token, stop) ∧ nextToken s₁ = .ok (token, s') := by
  obtain ⟨_, _, hget, h⟩ := run_bind h
  cases hget
  obtain ⟨⟨found, stop⟩, _, hfound, h⟩ := run_bind h
  obtain ⟨hfound, rfl⟩ := scan_ok hfound
  obtain ⟨_, s₁, hset, h⟩ := run_bind h
  cases hset
  obtain ⟨_, _, _, _, _, _, rfl, -⟩ := nextToken_cases h
  exact ⟨stop, _, hfound, h⟩

instance : Steady Spelled where
  frame hs _ _ hlook hstart :=
    { covers := hlook ▸ hs.covers
      slash := by rw [hlook, hstart]; exact hs.slash
      comment := hstart ▸ hs.comment }
  next _ h := spelled_of_nextToken h
  after hs h := by
    obtain ⟨_, _, _, _, _, rfl⟩ := tokenAfter_cases h
    exact { hs with }
  regex _ _ h := by
    obtain ⟨_, _, _, hnext⟩ := nextRegex_cases h
    exact spelled_of_nextToken hnext

instance : Spoken Lexicon.front Spelled where
  look hs := hs.covers
  slash hs hslash h := by
    obtain ⟨stop, _, hregex, -⟩ := nextRegex_cases h
    obtain ⟨cs, hrest⟩ := List.head?_eq_some_iff.1 (hs.slash hslash)
    exact front_covers_of_raw (scanRegex_front hrest hs.comment hregex).2

/-- The literals of a parsed text start texts. -/
theorem made_front {goal : Goal} {text : String} {t : Tree} (h : parse goal text = .ok t) :
    Made Lexicon.front t :=
  (made_of_parse (I := Spelled) h fun _ _ => spelled_of_nextToken).1

end Grammar

end NameRecovery
