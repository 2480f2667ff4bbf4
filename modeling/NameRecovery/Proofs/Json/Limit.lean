import NameRecovery.Proofs.Json.Decoded

/-!
# Integers that are too long

The reader has one problem that is not a fault of the text: an integer with too many digits.
It is found only where that many digits stand in a row, and a text that is nothing but such an
integer is refused for it.

* `Within` — a reader leaves an end of its text, and refuses only integers that stand in it;
* `longRun_of_decode` — **only a long run of digits is refused for its length**;
* `decodeChars_long` — a long run of digits is.
-/

namespace NameRecovery.Json

/-- That many digits in a row, more than can be read, stand in the text. -/
def LongRun (count : Nat) (text : List Char) : Prop :=
  ∃ run, run <:+: text ∧ (∀ c ∈ run, c.isDigit = true) ∧ run.length = count ∧ maxDigits < count

theorem LongRun.mono {count : Nat} {text text' : List Char} (h : LongRun count text)
    (htext : text <:+ text') : LongRun count text' := by
  obtain ⟨run, hrun, hall, hlength, hlong⟩ := h
  exact ⟨run, hrun.trans htext.isInfix, hall, hlength, hlong⟩

/-- What is left after reading is an end of the text, and an integer that is refused for its
length stands in the text. -/
def Within {α : Type} (text : List Char) : Except (Problem × Nat) (α × Input) → Prop
  | .ok (_, input) => input.rest <:+ text
  | .error (problem, _) => ∀ count, problem = .tooManyDigits count → LongRun count text

namespace Within

variable {α β : Type} {text text' : List Char}

theorem mono {result : Except (Problem × Nat) (α × Input)} (h : Within text result)
    (htext : text <:+ text') : Within text' result := by
  cases result with
  | ok read => exact h.trans htext
  | error e => exact fun count hcount => (h count hcount).mono htext

/-- What is read next is read within what is left. -/
theorem bind {result : Except (Problem × Nat) (α × Input)}
    {next : α × Input → Except (Problem × Nat) (β × Input)} (h : Within text result)
    (hnext : ∀ a input, Within input.rest (next (a, input))) : Within text (result >>= next) := by
  cases result with
  | ok read => exact (hnext read.1 read.2).mono h
  | error e => exact h

end Within

theorem drop_suffix (input : Input) (n : Nat) : (input.drop n).rest <:+ input.rest :=
  List.drop_suffix n input.rest

theorem skipGap_suffix (input : Input) : input.skipGap.rest <:+ input.rest :=
  drop_suffix input _

/-! ## Texts and numbers -/

theorem unicodeEscape_error {rest : List Char} {index : Nat} {e : Problem × Nat}
    (h : unicodeEscape rest index = .error e) : e.1 = .badUnicodeEscape := by
  simp only [unicodeEscape] at h
  split at h
  · cases h
    rfl
  · split at h
    · cases h
      rfl
    · split at h
      · split at h
        · cases h
          rfl
        · split at h <;> cases h
      · cases h

theorem textBody_within (start fuel : Nat) (done : List Char) (input : Input) :
    Within input.rest (textBody start fuel done input) := by
  induction fuel generalizing done input with
  | zero => exact fun _ h => by cases h
  | succ fuel ih =>
      rw [textBody]
      split
      · exact fun _ h => by cases h
      · exact drop_suffix input 1
      · exact fun _ h => by cases h
      · split
        · rename_i e he
          intro count hcount
          rw [unicodeEscape_error he] at hcount
          cases hcount
        · exact (ih _ _).mono (drop_suffix input _)
      · split
        · exact fun _ h => by cases h
        · exact (ih _ _).mono (drop_suffix input _)
      · split
        · exact fun _ h => by cases h
        · exact (ih _ _).mono (drop_suffix input _)

theorem readText_within (input : Input) : Within input.rest (readText input) := by
  have h := textBody_within (input.index - 1) (input.rest.length + 1) [] input
  rw [readText]
  split
  · rename_i heq
    rw [heq] at h
    exact h
  · rename_i heq
    rw [heq] at h
    exact h

theorem wholeDigits_isPrefix (cs : List Char) : wholeDigits cs <+: cs := by
  simp only [wholeDigits]
  split
  · exact ⟨_, rfl⟩
  · exact List.takeWhile_prefix _

theorem readNumber_within (input : Input) : Within input.rest (readNumber input) := by
  have hcs : (if input.rest.head? = some '-' then input.rest.drop 1 else input.rest) <:+
      input.rest := by
    split
    · exact List.drop_suffix 1 _
    · exact List.suffix_rfl
  simp only [readNumber]
  generalize (if input.rest.head? = some '-' then input.rest.drop 1 else input.rest) = cs at hcs
  split
  · exact fun _ h => by cases h
  · split
    · exact drop_suffix input _
    · split
      · split
        · rename_i hlong
          intro count hcount
          obtain rfl := Problem.tooManyDigits.inj hcount
          exact ⟨wholeDigits cs, (wholeDigits_isPrefix cs).isInfix.trans hcs.isInfix,
            isDigit_wholeDigits cs, rfl, hlong⟩
        · exact drop_suffix input _
      · exact drop_suffix input _

theorem readAtom_within (input : Input) : Within input.rest (readAtom input) := by
  rw [readAtom]
  split
  · exact drop_suffix input _
  · exact readNumber_within input

/-! ## Values -/

/-- The three readers stay within their texts. -/
structure Bounded (fuel : Nat) : Prop where
  /-- So does that of values, -/
  value : ∀ input, Within input.rest (readValue fuel input)
  /-- that of items, -/
  items : ∀ done input, Within input.rest (readItems fuel done input)
  /-- and that of fields. -/
  fields : ∀ done input, Within input.rest (readFields fuel done input)

theorem bounded_zero : Bounded 0 where
  value := fun _ _ h => by cases h
  items := fun _ _ _ h => by cases h
  fields := fun _ _ _ h => by cases h

theorem bounded_succ {fuel : Nat} (ih : Bounded fuel) : Bounded (fuel + 1) where
  value := by
    intro input
    have hopen : ((input.drop 1).skipGap).rest <:+ input.rest :=
      (skipGap_suffix _).trans (drop_suffix input 1)
    rw [readValue]
    split
    · refine Within.mono ((readText_within _).bind fun s input => ?_) (drop_suffix input 1)
      exact List.suffix_rfl
    · simp only
      split
      · exact (drop_suffix _ 1).trans hopen
      · exact (ih.fields _ _).mono hopen
    · simp only
      split
      · exact (drop_suffix _ 1).trans hopen
      · exact (ih.items _ _).mono hopen
    · exact readAtom_within input
  items := by
    intro done input
    rw [readItems]
    refine (ih.value input).bind fun item input => ?_
    refine Within.mono ?_ (skipGap_suffix input)
    simp only
    split
    · exact drop_suffix _ 1
    · exact (ih.items _ _).mono ((skipGap_suffix _).trans (drop_suffix _ 1))
    · exact fun _ h => by cases h
  fields := by
    intro done input
    rw [readFields]
    split
    · refine Within.mono ((readText_within _).bind fun name input => ?_) (drop_suffix input 1)
      refine Within.mono ?_ (skipGap_suffix input)
      simp only
      split
      · exact fun _ h => by cases h
      · refine Within.mono ((ih.value _).bind fun value input => ?_)
          ((skipGap_suffix _).trans (drop_suffix _ 1))
        refine Within.mono ?_ (skipGap_suffix input)
        simp only
        split
        · exact drop_suffix _ 1
        · exact (ih.fields _ _).mono ((skipGap_suffix _).trans (drop_suffix _ 1))
        · exact fun _ h => by cases h
    · exact fun _ h => by cases h

theorem bounded (fuel : Nat) : Bounded fuel := by
  induction fuel with
  | zero => exact bounded_zero
  | succ fuel ih => exact bounded_succ ih

/-- **Only a long run of digits is refused for its length.** -/
theorem longRun_of_decode {s : String} {e : DecodeError} {count : Nat} (h : decode s = .error e)
    (hcount : e.problem = .tooManyDigits count) : LongRun count s.toList := by
  have hwithin := ((bounded (2 * s.toList.length + 2)).value (Input.skipGap ⟨s.toList, 0⟩)).mono
    (skipGap_suffix ⟨s.toList, 0⟩)
  rw [decode] at h
  split at h
  · cases h
  · rename_i problem index herror
    obtain rfl := Except.error.inj h
    rw [decodeChars] at herror
    split at herror
    · cases herror
      cases hcount
    · split at herror
      · rename_i e' hread
        obtain rfl := Except.error.inj herror
        rw [hread] at hwithin
        exact hwithin count hcount
      · simp only at herror
        split at herror
        · cases herror
        · cases herror
          cases hcount

/-- A text that is nothing but a long integer is refused for its length. -/
theorem decodeChars_long {digits : List Char} (hdigits : ∀ c ∈ digits, c.isDigit = true)
    (hhead : digits.head? ≠ some '0') (hlong : maxDigits < digits.length) :
    decodeChars digits = .error (.tooManyDigits digits.length, 0) := by
  cases digits with
  | nil => exact absurd hlong (Nat.not_lt_zero _)
  | cons d ds =>
      have hd : d.isDigit = true := hdigits d List.mem_cons_self
      have hstart : startsAtom d = true := by rw [startsAtom, hd, Bool.true_or]
      have hvalue : startsValue d = true := by rw [startsValue, hstart, Bool.true_or]
      have hmark : d ≠ Char.ofNat 0xfeff := startsAtom_ne hstart rfl
      have hminus : d ≠ '-' := isDigit_ne hd rfl
      have hwhole : wholeDigits (d :: ds) = d :: ds := by
        have happend : wholeDigits (d :: ds ++ []) = d :: ds :=
          wholeDigits_append (List.cons_ne_nil d ds) hdigits
            (fun hzero => absurd hzero hhead) (fun c hc => by cases hc)
        rwa [List.append_nil] at happend
      have hread : readNumber ⟨d :: ds, 0⟩ = .error (.tooManyDigits (d :: ds).length, 0) := by
        simp only [readNumber, List.head?_cons, Option.some.injEq, hminus, if_false, hwhole,
          List.isEmpty_cons, Bool.false_eq_true, List.drop_length, fractionDigits, List.isEmpty_nil,
          if_true, List.drop_nil, exponentPart, if_pos hlong]
      rw [decodeChars, List.head?_cons, if_neg (by simpa using hmark),
        skipGap_cons (isGap_of_startsValue hvalue), readValue_atom hstart, readAtom,
        (constants_find?_digit hd ds).1]
      simp only [hread]

end NameRecovery.Json
