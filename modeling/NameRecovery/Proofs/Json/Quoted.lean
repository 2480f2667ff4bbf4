import NameRecovery.Proofs.Json.Number

/-!
# Texts read back

A text is written in quotes, and the characters that cannot stand there as they are as
escapes: most with a letter of their own, the other control characters with their codes.  The
reader takes each character back from what was written for it.

* `quotedChar_cases` — how a character is written;
* `readText_quote` — **a text in quotes is read as the text**, whatever follows;
* `onLine_quote` — a text is written without control characters.
-/

namespace NameRecovery.Json

theorem half?_cases (c : Char) :
    Text.half? c = none ∨ ∃ code, Text.half? c = some code ∧ 0xd800 ≤ code ∧ code ≤ c.toNat := by
  have hle : c.toNat - Text.lastPlane ≤ c.toNat := Nat.sub_le ..
  simp only [Text.half?]
  split
  · rename_i hhalf
    refine .inr ⟨_, rfl, ?_, hle⟩
    simp only [Text.isHalf, Bool.and_eq_true, decide_eq_true_eq] at hhalf
    exact hhalf.1
  · exact .inl rfl

/-- The code that decides how a character is written is its own, unless neither is small. -/
theorem codeOf_cases (c : Char) :
    Text.codeOf c = c.toNat ∨ (32 ≤ Text.codeOf c ∧ 32 ≤ c.toNat) := by
  rw [Text.codeOf]
  rcases half?_cases c with hnone | ⟨code, hsome, hlow, hle⟩
  · rw [hnone]
    exact .inl rfl
  · rw [hsome]
    simp only [Option.getD_some]
    omega

/-- A character is written as an escape with a letter of its own, as one with its code, or as
it is. -/
theorem quotedChar_cases (c : Char) :
    (∃ e, escaped? e = some c ∧ e ≠ 'u' ∧ 32 ≤ e.toNat ∧ quotedChar false c = ['\\', e]) ∨
    (c.toNat < 32 ∧ quotedChar false c = unitEscape c.toNat) ∨
    (c ≠ '"' ∧ c ≠ '\\' ∧ 32 ≤ c.toNat ∧ quotedChar false c = [c]) := by
  have hcode := codeOf_cases c
  have hof : ∀ n, c.toNat = n → c = Char.ofNat n := fun n hn => by rw [← hn, Char.ofNat_toNat]
  rw [quotedChar]
  generalize Text.codeOf c = n at hcode
  simp only [Bool.false_and, Bool.false_eq_true, if_false]
  split_ifs with hquote hslash hn hr ht hb hf hsmall
  · exact .inl ⟨'"', by rw [hquote]; rfl, by decide, by decide, rfl⟩
  · exact .inl ⟨'\\', by rw [hslash]; rfl, by decide, by decide, rfl⟩
  · exact .inl ⟨'n', by rw [hn]; rfl, by decide, by decide, rfl⟩
  · exact .inl ⟨'r', by rw [hr]; rfl, by decide, by decide, rfl⟩
  · exact .inl ⟨'t', by rw [ht]; rfl, by decide, by decide, rfl⟩
  · exact .inl ⟨'b', by rw [hof 8 (by omega)]; rfl, by decide, by decide, rfl⟩
  · exact .inl ⟨'f', by rw [hof 12 (by omega)]; rfl, by decide, by decide, rfl⟩
  · obtain rfl : n = c.toNat := by omega
    exact .inr (.inl ⟨by omega, rfl⟩)
  · exact .inr (.inr ⟨hquote, hslash, by omega, rfl⟩)

theorem hexValue?_hexDigit : ∀ d < 16, hexValue? (hexDigit d) = some d := by
  decide

/-- Four digits are read as the number they were written for. -/
theorem unit?_hex {n : Nat} (h : n < 65536) (rest : List Char) :
    unit? (hex 4 n ++ rest) = some n := by
  have hdigit : ∀ m, hexValue? (hexDigit (m % 16)) = some (m % 16) := fun m =>
    hexValue?_hexDigit (m % 16) (Nat.mod_lt m (by decide))
  simp only [hex, List.nil_append, List.cons_append, unit?, hdigit, bind, Option.bind, pure,
    Option.some.injEq]
  omega

theorem length_hex (n : Nat) : (hex 4 n).length = 4 := by
  simp [hex]

/-- A control character is read from its escape. -/
theorem unicodeEscape_unit {c : Char} (hc : c.toNat < 32) {rest : List Char} (hrest : rest ≠ [])
    (index : Nat) : unicodeEscape ('u' :: (hex 4 c.toNat ++ rest)) index = .ok (c, 4) := by
  have hlength : ¬ ('u' :: (hex 4 c.toNat ++ rest)).length < 6 := by
    have hpos := List.length_pos_iff.2 hrest
    simp only [List.length_cons, List.length_append, length_hex]
    omega
  have hunit : unit? (hex 4 c.toNat ++ rest) = some c.toNat := unit?_hex (by omega) rest
  have hpair : ¬ (0xd800 ≤ c.toNat ∧ c.toNat < 0xdc00 ∧
      6 < (List.drop 5 ('u' :: (hex 4 c.toNat ++ rest))).length ∧
      (List.drop 5 ('u' :: (hex 4 c.toNat ++ rest))).take 2 = ['\\', 'u']) := by
    omega
  have hchar : Text.charOfCode c.toNat = c := by
    have hhalf : Text.isHalf c.toNat = false := by
      simp only [Text.isHalf, Bool.and_eq_false_iff, decide_eq_false_iff_not]
      omega
    rw [Text.charOfCode, hhalf, if_neg (by decide), Char.ofNat_toNat]
  rw [unicodeEscape, if_neg hlength]
  simp only [List.drop_succ_cons, List.drop_zero, hunit]
  rw [if_neg (by simpa using hpair), hchar]

section TextBody

variable (start fuel : Nat) (done rest : List Char) (index : Nat)

theorem textBody_escape {e c : Char} (h : escaped? e = some c) (hu : e ≠ 'u') :
    textBody start (fuel + 1) done ⟨'\\' :: e :: rest, index⟩ =
      textBody start fuel (c :: done) ⟨rest, index + 2⟩ := by
  simp [textBody, h, Input.drop]

theorem textBody_unit {c : Char} (h : c.toNat < 32) (hrest : rest ≠ []) :
    textBody start (fuel + 1) done ⟨unitEscape c.toNat ++ rest, index⟩ =
      textBody start fuel (c :: done) ⟨rest, index + 6⟩ := by
  have hescape := unicodeEscape_unit h hrest (index + 1)
  simp only [unitEscape, List.cons_append, textBody, hescape, Input.drop, List.drop_succ_cons]
  rw [List.drop_left' (length_hex c.toNat)]

theorem textBody_plain {c : Char} (hquote : c ≠ '"') (hslash : c ≠ '\\') (h : 32 ≤ c.toNat) :
    textBody start (fuel + 1) done ⟨c :: rest, index⟩ =
      textBody start fuel (c :: done) ⟨rest, index + 1⟩ := by
  simp [textBody, hslash, Nat.not_lt.2 h, Input.drop]

end TextBody

/-- A character is read as it was written, if the text does not end with it. -/
theorem textBody_quotedChar (start fuel : Nat) (done : List Char) (c : Char) {rest : List Char}
    (hrest : rest ≠ []) (index : Nat) :
    textBody start (fuel + 1) done ⟨quotedChar false c ++ rest, index⟩ =
      textBody start fuel (c :: done) ⟨rest, index + (quotedChar false c).length⟩ := by
  rcases quotedChar_cases c with ⟨e, he, hu, -, heq⟩ | ⟨hsmall, heq⟩ | ⟨hquote, hslash, hc, heq⟩
  · rw [heq]
    exact textBody_escape _ _ _ _ _ he hu
  · have hsize : (unitEscape c.toNat).length = 6 := by simp [unitEscape, length_hex]
    rw [heq, hsize]
    exact textBody_unit _ _ _ _ _ hsmall hrest
  · rw [heq]
    exact textBody_plain _ _ _ _ _ hquote hslash hc

/-- The characters of a text are read as they were written. -/
theorem textBody_quoted (start : Nat) (cs : List Char) {fuel : Nat} (hfuel : cs.length < fuel)
    (done rest : List Char) (index : Nat) :
    textBody start fuel done ⟨cs.flatMap (quotedChar false) ++ '"' :: rest, index⟩ =
      .ok (done.reverse ++ cs, ⟨rest, index + (cs.flatMap (quotedChar false)).length + 1⟩) := by
  induction cs generalizing fuel done index with
  | nil =>
      obtain ⟨fuel, rfl⟩ : ∃ n, fuel = n + 1 := ⟨fuel - 1, by simp at hfuel; omega⟩
      simp [textBody, Input.drop]
  | cons c cs ih =>
      obtain ⟨fuel, rfl⟩ : ∃ n, fuel = n + 1 := ⟨fuel - 1, by simp at hfuel; omega⟩
      rw [List.flatMap_cons, List.append_assoc, textBody_quotedChar _ _ _ _ (by simp),
        ih (by simpa using hfuel), List.reverse_cons, List.append_assoc, List.singleton_append,
        List.length_append, Nat.add_assoc index]

theorem quotedChar_ne_nil (c : Char) : quotedChar false c ≠ [] := by
  rcases quotedChar_cases c with ⟨e, -, -, -, heq⟩ | ⟨-, heq⟩ | ⟨-, -, -, heq⟩ <;>
    simp [heq, unitEscape]

theorem length_le_quoted (cs : List Char) :
    cs.length ≤ (cs.flatMap (quotedChar false)).length := by
  induction cs with
  | nil => simp
  | cons c cs ih =>
      have hpos := List.length_pos_iff.2 (quotedChar_ne_nil c)
      simp only [List.length_cons, List.flatMap_cons, List.length_append]
      omega

/-- A text in quotes is read as the text. -/
theorem readText_quote (s : String) :
    ∃ body, (quote false s).toList = '"' :: body ∧ ∀ rest index,
      readText ⟨body ++ rest, index⟩ = .ok (s, ⟨rest, index + body.length⟩) := by
  refine ⟨s.toList.flatMap (quotedChar false) ++ ['"'], ?_, fun rest index => ?_⟩
  · rw [quote, String.toList_ofList]
    rfl
  have hfuel : s.toList.length <
      (s.toList.flatMap (quotedChar false) ++ ['"'] ++ rest).length + 1 := by
    have hle := length_le_quoted s.toList
    simp only [List.length_append]
    omega
  rw [readText]
  rw [List.append_assoc, List.singleton_append] at hfuel ⊢
  rw [textBody_quoted _ _ hfuel]
  simp [Nat.add_assoc]

theorem onLine_hexDigit : ∀ d < 16, 32 ≤ (hexDigit d).toNat := by
  decide

/-- A character is written without control characters. -/
theorem onLine_quotedChar (c : Char) : OnLine (quotedChar false c) := by
  rcases quotedChar_cases c with ⟨e, -, -, he, heq⟩ | ⟨-, heq⟩ | ⟨-, -, hc, heq⟩
  · rw [heq]
    exact onLine_cons.2 ⟨by decide, onLine_cons.2 ⟨he, onLine_nil⟩⟩
  · have hdigit : ∀ m, 32 ≤ (hexDigit (m % 16)).toNat := fun m =>
      onLine_hexDigit (m % 16) (Nat.mod_lt m (by decide))
    rw [heq]
    simp only [unitEscape, hex, List.nil_append, List.cons_append, onLine_cons, hdigit, true_and]
    exact ⟨by decide, by decide, onLine_nil⟩
  · rw [heq]
    exact onLine_cons.2 ⟨hc, onLine_nil⟩

theorem onLine_quote (s : String) : OnLine (quote false s).toList := by
  rw [quote, String.toList_ofList]
  refine onLine_append.2 ⟨onLine_cons.2 ⟨by decide, fun c hc => ?_⟩,
    onLine_cons.2 ⟨by decide, onLine_nil⟩⟩
  obtain ⟨d, -, hd⟩ := List.mem_flatMap.1 hc
  exact onLine_quotedChar d c hd

end NameRecovery.Json
