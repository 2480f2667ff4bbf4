import NameRecovery.Json.Decode
import NameRecovery.Json.Encode
import NameRecovery.Proofs.Decimal.Shortest
import NameRecovery.Proofs.Text.Pieces
import Mathlib.Data.List.Basic

/-!
# Numbers read back

A written number has a sign, a whole part, a fraction and an exponent.  The reader takes all
of it, if nothing follows that continues it, and gives the value of its parts.  Everything
the writer makes of a number is written so, but for the three names of values that are not
finite.

* `Written` — the parts of a written number; `readNumber_written` reads them;
* `ReadsAs` — the text reads as the value, whatever follows it;
* `readsAs_int` — a whole number reads as itself;
* `readsAs_real` — any other number reads as what its decimal means, `rereadReal`.
-/

namespace NameRecovery.Json

/-- Nothing that follows continues a number. -/
def Ends (rest : List Char) : Prop :=
  ∀ c ∈ rest.head?, c.isDigit = false ∧ c ≠ '.' ∧ c ≠ 'e' ∧ c ≠ 'E'

theorem ends_nil : Ends [] := by
  intro c hc
  cases hc

theorem ends_cons {c : Char} (h : c.isDigit = false ∧ c ≠ '.' ∧ c ≠ 'e' ∧ c ≠ 'E')
    (rest : List Char) : Ends (c :: rest) := by
  intro d hd
  obtain rfl : c = d := Option.some.inj hd
  exact h

/-- There are no control characters in the text, so that it stands on one line. -/
def OnLine (text : List Char) : Prop :=
  ∀ c ∈ text, 32 ≤ c.toNat

instance (text : List Char) : Decidable (OnLine text) :=
  decidable_of_iff (text.all fun c => decide (32 ≤ c.toNat)) (by simp [OnLine])

theorem onLine_append {text text' : List Char} :
    OnLine (text ++ text') ↔ OnLine text ∧ OnLine text' := by
  simp only [OnLine, List.mem_append]
  exact ⟨fun h => ⟨fun c hc => h c (.inl hc), fun c hc => h c (.inr hc)⟩,
    fun h c hc => hc.elim (h.1 c) (h.2 c)⟩

theorem onLine_cons {c : Char} {text : List Char} :
    OnLine (c :: text) ↔ 32 ≤ c.toNat ∧ OnLine text := by
  simp [OnLine]

theorem onLine_nil : OnLine [] := by
  simp [OnLine]

theorem onLine_digits {digits : List Char} (h : ∀ c ∈ digits, c.isDigit = true) :
    OnLine digits := by
  intro c hc
  have hdigit := h c hc
  simp only [Char.isDigit, Bool.and_eq_true, decide_eq_true_eq] at hdigit
  have hlow : '0'.toNat ≤ c.toNat := hdigit.1
  exact Nat.le_trans (by decide) hlow

/-! ## Parts of a number -/

/-- The parts of a written number. -/
structure Written where
  /-- Is there a sign? -/
  negative : Bool
  /-- The digits before the point. -/
  whole : List Char
  /-- The digits behind the point, none if there is no point. -/
  fraction : List Char
  /-- The exponent, if there is one: its sign and its digits. -/
  exponent : Option (Bool × List Char)

namespace Written

/-- The text of the fraction. -/
def fractionText (w : Written) : List Char :=
  if w.fraction.isEmpty then [] else '.' :: w.fraction

/-- The text of the exponent. -/
def exponentText (w : Written) : List Char :=
  match w.exponent with
  | none => []
  | some (minus, digits) => 'e' :: (if minus then '-' else '+') :: digits

/-- The text of the number. -/
def chars (w : Written) : List Char :=
  (if w.negative then ['-'] else []) ++ (w.whole ++ (w.fractionText ++ w.exponentText))

/-- The value of the exponent. -/
def power (w : Written) : Int :=
  match w.exponent with
  | none => 0
  | some (minus, digits) => if minus then -(digitsValue digits : Int) else digitsValue digits

/-- Is the number written without fraction and exponent? -/
def isInteger (w : Written) : Bool :=
  w.fraction.isEmpty && w.exponent.isNone

/-- What the number is read as. -/
def value (w : Written) : Json :=
  if w.isInteger then .int (if w.negative then -(digitsValue w.whole : Int) else digitsValue w.whole)
  else
    let x := Decimal.toFloat (digitsValue (w.whole ++ w.fraction)) (w.power - w.fraction.length)
    .real (if w.negative then -x else x)

/-- The parts are digits, where digits have to be, and an integer has not too many. -/
structure Valid (w : Written) : Prop where
  /-- The whole part has digits. -/
  whole_ne : w.whole ≠ []
  /-- It has nothing else. -/
  whole_digits : ∀ c ∈ w.whole, c.isDigit = true
  /-- It starts with zero only if there is no other digit. -/
  leading : w.whole.head? = some '0' → w.whole = ['0']
  /-- The fraction has digits only. -/
  fraction_digits : ∀ c ∈ w.fraction, c.isDigit = true
  /-- The exponent has digits and nothing else. -/
  exponent_digits : ∀ minus digits, w.exponent = some (minus, digits) →
    digits ≠ [] ∧ ∀ c ∈ digits, c.isDigit = true
  /-- An integer can be read. -/
  short : w.isInteger = true → w.whole.length ≤ maxDigits

end Written

theorem wholeDigits_append {whole rest : List Char} (hne : whole ≠ [])
    (hdigits : ∀ c ∈ whole, c.isDigit = true) (hleading : whole.head? = some '0' → whole = ['0'])
    (hrest : ∀ c ∈ rest.head?, c.isDigit = false) : wholeDigits (whole ++ rest) = whole := by
  cases whole with
  | nil => exact absurd rfl hne
  | cons c cs =>
      by_cases hzero : c = '0'
      · subst hzero
        rw [hleading rfl]
        rfl
      · have htake : wholeDigits (c :: cs ++ rest) = (c :: cs ++ rest).takeWhile Char.isDigit := by
          simp only [wholeDigits, List.cons_append]
          split
          · rename_i heq
            exact absurd (List.cons.inj heq).1 hzero
          · rfl
        rw [htake, Text.takeWhile_run hdigits hrest]

theorem fractionDigits_append (w : Written) (hdigits : ∀ c ∈ w.fraction, c.isDigit = true)
    {rest : List Char} (hrest : ∀ c ∈ rest.head?, c.isDigit = false ∧ c ≠ '.') :
    fractionDigits (w.fractionText ++ rest) = w.fraction := by
  rw [Written.fractionText]
  cases hfraction : w.fraction with
  | nil =>
      cases rest with
      | nil => rfl
      | cons c rest =>
          have hpoint : c ≠ '.' := (hrest c rfl).2
          simp only [List.isEmpty_nil, if_true, List.nil_append, fractionDigits]
          split
          · rename_i heq
            exact absurd (List.cons.inj heq).1 hpoint
          · rfl
  | cons d digits =>
      rw [hfraction] at hdigits
      exact Text.takeWhile_run hdigits fun c hc => (hrest c hc).1

theorem exponentPart_append (w : Written)
    (hdigits : ∀ minus digits, w.exponent = some (minus, digits) →
      digits ≠ [] ∧ ∀ c ∈ digits, c.isDigit = true) {rest : List Char} (hrest : Ends rest) :
    exponentPart (w.exponentText ++ rest) =
      if w.exponent.isSome then some (w.power, w.exponentText.length) else none := by
  rw [Written.exponentText, Written.power]
  cases hexponent : w.exponent with
  | none =>
      cases rest with
      | nil => rfl
      | cons c rest =>
          obtain ⟨-, -, he, hE⟩ := hrest c rfl
          simp [exponentPart, he, hE]
  | some parts =>
      obtain ⟨minus, digits⟩ := parts
      obtain ⟨hne, hall⟩ := hdigits minus digits hexponent
      have htake : (digits ++ rest).takeWhile Char.isDigit = digits :=
        Text.takeWhile_run hall fun c hc => (hrest c hc).1
      cases minus <;> simp [exponentPart, htake, hne] <;> omega

theorem Written.fractionText_length (w : Written) :
    (if w.fraction.isEmpty then 0 else w.fraction.length + 1) = w.fractionText.length := by
  rw [fractionText]
  split <;> simp

theorem isDigit_ne {c d : Char} (h : c.isDigit = true) (hd : d.isDigit = false) : c ≠ d := by
  rintro rfl
  rw [h] at hd
  cases hd

/-- What follows the fraction of a number continues neither it nor the whole part. -/
theorem exponentText_head (w : Written) {rest : List Char} (hrest : Ends rest) :
    ∀ c ∈ (w.exponentText ++ rest).head?, c.isDigit = false ∧ c ≠ '.' := by
  intro c hc
  rw [Written.exponentText] at hc
  split at hc
  · exact ⟨(hrest c hc).1, (hrest c hc).2.1⟩
  · obtain rfl : 'e' = c := Option.some.inj hc
    exact ⟨rfl, by decide⟩

theorem fractionText_head (w : Written) {rest : List Char} (hrest : Ends rest) :
    ∀ c ∈ (w.fractionText ++ (w.exponentText ++ rest)).head?, c.isDigit = false := by
  intro c hc
  rw [Written.fractionText] at hc
  split at hc
  · exact (exponentText_head w hrest c hc).1
  · obtain rfl : '.' = c := Option.some.inj hc
    rfl

/-- The sign of a number, and what is behind it. -/
theorem sign_chars {w : Written} (h : w.Valid) (rest : List Char) :
    ((w.chars ++ rest).head? = some '-' ↔ w.negative = true) ∧
      (if w.negative = true then (w.chars ++ rest).drop 1 else w.chars ++ rest) =
        w.whole ++ (w.fractionText ++ (w.exponentText ++ rest)) := by
  cases hwhole : w.whole with
  | nil => exact absurd hwhole h.whole_ne
  | cons d ds =>
      have hd : d ≠ '-' := isDigit_ne (h.whole_digits d (by simp [hwhole])) rfl
      cases hnegative : w.negative with
      | true => simp [Written.chars, hnegative, hwhole]
      | false => simp [Written.chars, hnegative, hwhole, hd]

/-- **A number is read as its parts say**, and the reader stands right behind it. -/
theorem readNumber_written {w : Written} (h : w.Valid) {rest : List Char} (hrest : Ends rest)
    (index : Nat) :
    readNumber ⟨w.chars ++ rest, index⟩ = .ok (w.value, ⟨rest, index + w.chars.length⟩) := by
  obtain ⟨hsign, hbody⟩ := sign_chars h rest
  have hwhole : wholeDigits (w.whole ++ (w.fractionText ++ (w.exponentText ++ rest))) = w.whole :=
    wholeDigits_append h.whole_ne h.whole_digits h.leading (fractionText_head w hrest)
  have hfraction := fractionDigits_append w h.fraction_digits (exponentText_head w hrest)
  have hexponent := exponentPart_append w h.exponent_digits hrest
  have hsize : (if w.negative = true then 1 else 0) + w.whole.length + w.fractionText.length +
      w.exponentText.length = w.chars.length := by
    rw [Written.chars]
    split <;> simp <;> omega
  have hdrop : Input.drop ⟨w.chars ++ rest, index⟩ w.chars.length =
      ⟨rest, index + w.chars.length⟩ := by
    simp [Input.drop]
  have hne : w.whole.isEmpty = false := by simpa using h.whole_ne
  simp only [readNumber, hbody, hwhole, hne, Bool.false_eq_true, if_false, List.drop_left,
    hfraction, w.fractionText_length, hexponent, hsign]
  cases hpart : w.exponent with
  | some part =>
      have hinteger : w.isInteger = false := by simp [Written.isInteger, hpart]
      simp only [Option.isSome_some, if_true, hsize, hdrop, Written.value, hinteger,
        Bool.false_eq_true, if_false]
  | none =>
      have hlength : w.exponentText.length = 0 := by rw [Written.exponentText, hpart]; rfl
      have hpower : w.power = 0 := by rw [Written.power, hpart]
      rw [hlength, Nat.add_zero] at hsize
      simp only [Option.isSome_none, Bool.false_eq_true, if_false, hsize, hdrop]
      cases hempty : w.fraction.isEmpty with
      | true =>
          have hinteger : w.isInteger = true := by simp [Written.isInteger, hpart, hempty]
          have hshort := Nat.not_lt.2 (h.short hinteger)
          simp only [if_true, if_neg hshort, Written.value, hinteger]
      | false =>
          have hinteger : w.isInteger = false := by simp [Written.isInteger, hempty]
          simp only [Bool.false_eq_true, if_false, Written.value, hinteger, hpower, zero_sub]

/-! ## Atoms -/

/-- The text reads as the value, wherever it stands, if nothing that follows continues a
number. -/
def ReadsAs (text : List Char) (value : Json) : Prop :=
  ∀ rest index, Ends rest →
    readAtom ⟨text ++ rest, index⟩ = .ok (value, ⟨rest, index + text.length⟩)

theorem ReadsAs.unique {text : List Char} {value value' : Json} (h : ReadsAs text value)
    (h' : ReadsAs text value') : value = value' := by
  have hread := (h [] 0 ends_nil).symm.trans (h' [] 0 ends_nil)
  exact (Prod.mk.inj (Except.ok.inj hread)).1

/-- No constant starts like a number. -/
theorem constants_find?_digit {d : Char} (hd : d.isDigit = true) (rest : List Char) :
    (constants.find? fun constant => constant.1.isPrefixOf (d :: rest)) = none ∧
      (constants.find? fun constant => constant.1.isPrefixOf ('-' :: d :: rest)) = none := by
  have hn : ('n' == d) = false := by simpa using (isDigit_ne hd (d := 'n') rfl).symm
  have ht : ('t' == d) = false := by simpa using (isDigit_ne hd (d := 't') rfl).symm
  have hf : ('f' == d) = false := by simpa using (isDigit_ne hd (d := 'f') rfl).symm
  have hN : ('N' == d) = false := by simpa using (isDigit_ne hd (d := 'N') rfl).symm
  have hI : ('I' == d) = false := by simpa using (isDigit_ne hd (d := 'I') rfl).symm
  have hminus : ('-' == d) = false := by simpa using (isDigit_ne hd (d := '-') rfl).symm
  constructor
  · simp [constants, List.find?, List.isPrefixOf, hn, ht, hf, hN, hI, hminus]
  · simp [constants, List.find?, List.isPrefixOf, hI]

theorem readsAs_written {w : Written} (h : w.Valid) : ReadsAs w.chars w.value := by
  intro rest index hrest
  have hnone : (constants.find? fun constant => constant.1.isPrefixOf (w.chars ++ rest)) = none := by
    cases hwhole : w.whole with
    | nil => exact absurd hwhole h.whole_ne
    | cons d ds =>
        have hd : d.isDigit = true := h.whole_digits d (by simp [hwhole])
        cases hnegative : w.negative with
        | true =>
            simp only [Written.chars, hnegative, hwhole, if_true, List.cons_append]
            exact (constants_find?_digit hd _).2
        | false =>
            simp only [Written.chars, hnegative, hwhole, Bool.false_eq_true, if_false,
              List.nil_append, List.cons_append]
            exact (constants_find?_digit hd _).1
  rw [readAtom, hnone]
  exact readNumber_written h hrest index

/-! ## Whole numbers -/

theorem digitsValue_toDigits (n : Nat) : digitsValue (Nat.toDigits 10 n) = n := by
  have hfold : digitsValue (Nat.toDigits 10 n) = Nat.ofDigitChars 10 (Nat.toDigits 10 n) 0 := by
    simp only [digitsValue, Nat.ofDigitChars, Nat.mul_comm]
    rfl
  rw [hfold, Nat.ofDigitChars_toDigits (by decide) (by decide)]

theorem isDigit_toDigits (n : Nat) : ∀ c ∈ Nat.toDigits 10 n, c.isDigit = true :=
  fun _ hc => Nat.isDigit_of_mem_toDigits (by decide) (by decide) hc

/-- A positive number does not start with zero. -/
theorem head?_toDigits {n : Nat} (h : 0 < n) : (Nat.toDigits 10 n).head? ≠ some '0' := by
  induction n using Nat.strongRecOn with
  | ind n ih =>
      rw [Nat.toDigits_eq_if (by decide)]
      split
      · rename_i hsmall
        have hdigit : ∀ d < 10, 0 < d → Nat.digitChar d ≠ '0' := by decide
        simpa using hdigit n hsmall h
      · rename_i hlarge
        rw [List.head?_append_of_ne_nil _ Nat.toDigits_ne_nil]
        exact ih (n / 10) (by omega) (by omega)

theorem leading_toDigits (n : Nat) (h : (Nat.toDigits 10 n).head? = some '0') :
    Nat.toDigits 10 n = ['0'] := by
  rcases Nat.eq_zero_or_pos n with rfl | hpos
  · rfl
  · exact absurd h (head?_toDigits hpos)

/-- The parts of a whole number. -/
def writtenInt (n : Int) : Written :=
  ⟨decide (n < 0), Nat.toDigits 10 n.natAbs, [], none⟩

theorem writtenInt_valid {n : Int} (h : n.natAbs < 10 ^ maxDigits) : (writtenInt n).Valid where
  whole_ne := Nat.toDigits_ne_nil
  whole_digits := isDigit_toDigits n.natAbs
  leading := leading_toDigits n.natAbs
  fraction_digits := fun _ hc => absurd hc List.not_mem_nil
  exponent_digits := fun _ _ heq => by cases heq
  short := fun _ => (Nat.length_toDigits_le_iff (by decide) (by decide)).2 h

theorem writtenInt_chars (n : Int) : (toString n).toList = (writtenInt n).chars := by
  have htext : toString n = Int.repr n := rfl
  rw [htext, Int.repr_eq_if, Written.chars, writtenInt]
  by_cases hneg : n < 0
  · have habs : (-n).toNat = n.natAbs := by omega
    rw [if_neg (by omega), String.toList_append, Nat.toList_repr, habs]
    simp [hneg, Written.fractionText, Written.exponentText]
  · have habs : n.toNat = n.natAbs := by omega
    rw [if_pos (by omega), Nat.toList_repr, habs]
    simp [hneg, Written.fractionText, Written.exponentText]

theorem writtenInt_value (n : Int) : (writtenInt n).value = .int n := by
  have hinteger : (writtenInt n).isInteger = true := rfl
  rw [Written.value, hinteger, if_pos rfl, writtenInt, digitsValue_toDigits]
  by_cases hneg : n < 0
  · simp only [hneg, decide_true, if_true, Json.int.injEq]
    omega
  · simp only [hneg, decide_false, Bool.false_eq_true, if_false, Json.int.injEq]
    omega

/-- A whole number that is not too long reads as itself. -/
theorem readsAs_int {n : Int} (h : n.natAbs < 10 ^ maxDigits) :
    ReadsAs (toString n).toList (.int n) := by
  rw [writtenInt_chars, ← writtenInt_value n]
  exact readsAs_written (writtenInt_valid h)

/-! ## Other numbers -/

/-- Is the text that of a number with a fraction or an exponent, and without a sign? -/
def IsDecimal (text : List Char) : Prop :=
  ∃ w : Written, w.Valid ∧ w.isInteger = false ∧ w.negative = false ∧ text = w.chars

theorem isDecimal_point {whole fraction : List Char} (hne : whole ≠ [])
    (hwhole : ∀ c ∈ whole, c.isDigit = true) (hleading : whole.head? = some '0' → whole = ['0'])
    (hne' : fraction ≠ []) (hfraction : ∀ c ∈ fraction, c.isDigit = true) :
    IsDecimal (whole ++ '.' :: fraction) := by
  have hnot : fraction.isEmpty = false := by simpa using hne'
  refine ⟨⟨false, whole, fraction, none⟩, ⟨hne, hwhole, hleading, hfraction, ?_, ?_⟩, ?_, rfl, ?_⟩
  · intro _ _ heq
    cases heq
  · intro hinteger
    simp [Written.isInteger, hne'] at hinteger
  · simp [Written.isInteger, hnot]
  · simp [Written.chars, Written.fractionText, Written.exponentText, hnot]

theorem isDecimal_exponent {d : Char} (hd : d.isDigit = true) {fraction exponent : List Char}
    (hfraction : ∀ c ∈ fraction, c.isDigit = true) (minus : Bool) (hne : exponent ≠ [])
    (hexponent : ∀ c ∈ exponent, c.isDigit = true) :
    IsDecimal (d :: ((if fraction.isEmpty then [] else '.' :: fraction) ++
      'e' :: (if minus then '-' else '+') :: exponent)) := by
  refine ⟨⟨false, [d], fraction, some (minus, exponent)⟩,
    ⟨by simp, ?_, ?_, hfraction, ?_, ?_⟩, ?_, rfl, ?_⟩
  · intro c hc
    rw [List.mem_singleton.1 hc]
    exact hd
  · intro hzero
    rw [Option.some.inj hzero]
  · intro minus' digits heq
    obtain ⟨-, rfl⟩ := Prod.mk.inj (Option.some.inj heq)
    exact ⟨hne, hexponent⟩
  · intro hinteger
    simp [Written.isInteger] at hinteger
  · simp [Written.isInteger]
  · simp [Written.chars, Written.fractionText, Written.exponentText]

theorem isDigit_replicate (n : Nat) : ∀ c ∈ List.replicate n '0', c.isDigit = true := by
  intro c hc
  rw [List.eq_of_mem_replicate hc]
  rfl

/-- A decimal that is not zero is written with a fraction or an exponent. -/
theorem isDecimal_render (format : Decimal.Format) {d : Decimal.Numeral} (h : 0 < d.digits) :
    IsDecimal (d.render format).toList := by
  have hdigits := isDigit_toDigits d.digits
  have hne : Nat.toDigits 10 d.digits ≠ [] := Nat.toDigits_ne_nil
  have hhead := head?_toDigits h
  rw [Decimal.Numeral.render]
  generalize Nat.toDigits 10 d.digits = digits at hdigits hne hhead
  simp only
  generalize (digits.length + d.exponent : Int) = point
  split
  · split
    · -- only zeros stand before the digits
      have htext : ("0." ++ String.ofList (List.replicate (-point).toNat '0' ++ digits)).toList =
          ['0'] ++ '.' :: (List.replicate (-point).toNat '0' ++ digits) := by
        simp
      rw [htext]
      refine isDecimal_point (by simp) (by simp) (fun _ => rfl) (by simp [hne]) fun c hc => ?_
      rcases List.mem_append.1 hc with hc | hc
      · exact isDigit_replicate _ c hc
      · exact hdigits c hc
    · -- the point stands between the digits, or behind them
      rename_i hpoint
      obtain ⟨size, hsize⟩ : ∃ size, point.toNat = size + 1 := ⟨point.toNat - 1, by omega⟩
      rw [hsize]
      have htext : (String.ofList (digits.take (size + 1) ++
            List.replicate (size + 1 - digits.length) '0') ++ "." ++
          (if (digits.drop (size + 1)).isEmpty then "0"
            else String.ofList (digits.drop (size + 1)))).toList =
          (digits.take (size + 1) ++ List.replicate (size + 1 - digits.length) '0') ++
            '.' :: (if (digits.drop (size + 1)).isEmpty then ['0'] else digits.drop (size + 1)) := by
        split <;> simp
      rw [htext]
      refine isDecimal_point ?_ ?_ ?_ ?_ ?_
      · simp [hne]
      · intro c hc
        rcases List.mem_append.1 hc with hc | hc
        · exact hdigits c (List.mem_of_mem_take hc)
        · exact isDigit_replicate _ c hc
      · intro hzero
        cases digits with
        | nil => exact absurd rfl hne
        | cons c cs => exact absurd hzero hhead
      · split
        · simp
        · rename_i hnot
          simpa using hnot
      · intro c hc
        split at hc
        · rw [List.mem_singleton.1 hc]
          rfl
        · exact hdigits c (List.mem_of_mem_drop hc)
  · -- one digit before the point, and an exponent
    cases digits with
    | nil => exact absurd rfl hne
    | cons c cs =>
        generalize (point - 1).natAbs = power
        have htext : (String.ofList ((c :: cs).take 1) ++
              (if ((c :: cs).drop 1).isEmpty then "" else "." ++ String.ofList ((c :: cs).drop 1)) ++
              "e" ++ (if point - 1 < 0 then "-" else "+") ++
              String.ofList (List.replicate (format.exponentWidth -
                (Nat.toDigits 10 power).length) '0' ++ Nat.toDigits 10 power)).toList =
            c :: ((if cs.isEmpty then [] else '.' :: cs) ++
              'e' :: (if decide (point - 1 < 0) then '-' else '+') ::
                (List.replicate (format.exponentWidth - (Nat.toDigits 10 power).length) '0' ++
                  Nat.toDigits 10 power)) := by
          by_cases hminus : point - 1 < 0 <;> by_cases hcs : cs.isEmpty <;> simp [hminus, hcs]
        rw [htext]
        refine isDecimal_exponent (hdigits c (by simp)) (fun d hd => hdigits d (by simp [hd])) _
          (by simp) fun d hd => ?_
        rcases List.mem_append.1 hd with hd | hd
        · exact isDigit_replicate _ d hd
        · exact isDigit_toDigits _ d hd

/-- A text that is not that of an integer reads as some other number. -/
theorem IsDecimal.readsAs {text : List Char} (h : IsDecimal text) :
    ∃ x y, ReadsAs text (.real x) ∧ ReadsAs ('-' :: text) (.real y) := by
  obtain ⟨w, hvalid, hinteger, hnegative, rfl⟩ := h
  have hminus : '-' :: w.chars = { w with negative := true }.chars := by
    rw [Written.chars, Written.chars, hnegative]
    rfl
  have hvalid' : Written.Valid { w with negative := true } :=
    ⟨hvalid.whole_ne, hvalid.whole_digits, hvalid.leading, hvalid.fraction_digits,
      hvalid.exponent_digits, hvalid.short⟩
  have hreal : ∀ v : Written, v.isInteger = false → ∃ x, v.value = .real x := by
    intro v hv
    rw [Written.value, hv]
    exact ⟨_, rfl⟩
  obtain ⟨x, hx⟩ := hreal w hinteger
  obtain ⟨y, hy⟩ := hreal { w with negative := true } hinteger
  refine ⟨x, y, ?_, ?_⟩
  · rw [← hx]
    exact readsAs_written hvalid
  · rw [hminus, ← hy]
    exact readsAs_written hvalid'

/-- A text that is the first constant it starts with reads as its value. -/
theorem readsAs_constant {text : List Char} {value : Json}
    (h : ∀ rest, (constants.find? fun constant => constant.1.isPrefixOf (text ++ rest)) =
      some (text, value)) : ReadsAs text value := by
  intro rest index _
  rw [readAtom, h]
  simp only [Input.drop, List.drop_left]

theorem readsAs_nan : ReadsAs "NaN".toList (.real (0.0 / 0.0)) :=
  readsAs_constant fun _ => rfl

theorem readsAs_infinity : ReadsAs "Infinity".toList (.real (1.0 / 0.0)) :=
  readsAs_constant fun _ => rfl

theorem readsAs_negInfinity : ReadsAs ('-' :: "Infinity".toList) (.real (-1.0 / 0.0)) :=
  readsAs_constant fun _ => rfl

theorem Written.Valid.onLine {w : Written} (h : w.Valid) : OnLine w.chars := by
  have hsign : OnLine (if w.negative then ['-'] else []) := by
    split
    · exact onLine_cons.2 ⟨by decide, onLine_nil⟩
    · exact onLine_nil
  have hfraction : OnLine w.fractionText := by
    rw [Written.fractionText]
    split
    · exact onLine_nil
    · exact onLine_cons.2 ⟨by decide, onLine_digits h.fraction_digits⟩
  have hexponent : OnLine w.exponentText := by
    rw [Written.exponentText]
    split
    · exact onLine_nil
    · rename_i minus digits heq
      refine onLine_cons.2 ⟨by decide, onLine_cons.2 ⟨?_, ?_⟩⟩
      · cases minus <;> decide
      · exact onLine_digits (h.exponent_digits minus digits heq).2
  exact onLine_append.2 ⟨hsign, onLine_append.2 ⟨onLine_digits h.whole_digits,
    onLine_append.2 ⟨hfraction, hexponent⟩⟩⟩

theorem IsDecimal.onLine {text : List Char} (h : IsDecimal text) : OnLine text := by
  obtain ⟨w, hvalid, -, -, rfl⟩ := h
  exact hvalid.onLine

theorem onLine_int {n : Int} (h : n.natAbs < 10 ^ maxDigits) : OnLine (toString n).toList := by
  rw [writtenInt_chars]
  exact (writtenInt_valid h).onLine

theorem isDecimal_zero : IsDecimal "0.0".toList := by
  have htext : "0.0".toList = ['0'] ++ '.' :: ['0'] := by simp
  rw [htext]
  exact isDecimal_point (by simp) (by simp) (fun _ => rfl) (by simp) (by simp)

/-- What is written for a number that is not whole stands on one line, and reads as such a
number. -/
theorem exists_readsAs_real (x : Float) :
    ∃ y, ReadsAs (renderReal x).toList (.real y) ∧ OnLine (renderReal x).toList := by
  have hsign : ∀ (minus : Prop) [Decidable minus] {text : String} {a b : Float},
      ReadsAs text.toList (.real a) → ReadsAs ('-' :: text.toList) (.real b) →
      OnLine text.toList → ∃ y, ReadsAs ((if minus then "-" else "") ++ text).toList (.real y) ∧
        OnLine ((if minus then "-" else "") ++ text).toList := by
    intro minus _ text a b ha hb hline
    by_cases hminus : minus
    · rw [if_pos hminus, String.toList_append]
      exact ⟨b, hb, onLine_cons.2 ⟨by decide, hline⟩⟩
    · rw [if_neg hminus, String.toList_append]
      exact ⟨a, ha, hline⟩
  rw [renderReal, Decimal.render]
  split
  · split
    · exact hsign _ readsAs_infinity readsAs_negInfinity (by decide)
    · exact ⟨_, readsAs_nan, by decide⟩
  · split
    · obtain ⟨a, b, ha, hb⟩ := isDecimal_zero.readsAs
      exact hsign _ ha hb isDecimal_zero.onLine
    · rename_i hbits
      obtain ⟨hpos, hexp⟩ := Decimal.Binary.ofBits_pos hbits
      have hdecimal := isDecimal_render .standard (Decimal.Binary.shortest_pos hpos hexp)
      obtain ⟨a, b, ha, hb⟩ := hdecimal.readsAs
      exact hsign _ ha hb hdecimal.onLine

/-- The number that is read where a number that is not whole was written. -/
def rereadReal (x : Float) : Float :=
  match readAtom ⟨(renderReal x).toList, 0⟩ with
  | .ok (.real y, _) => y
  | _ => x

/-- A number that is not whole reads as what its decimal means. -/
theorem readsAs_real (x : Float) : ReadsAs (renderReal x).toList (.real (rereadReal x)) := by
  obtain ⟨y, hy, -⟩ := exists_readsAs_real x
  have hread := hy [] 0 ends_nil
  rw [List.append_nil] at hread
  have heq : rereadReal x = y := by rw [rereadReal, hread]
  rw [heq]
  exact hy

theorem onLine_real (x : Float) : OnLine (renderReal x).toList := by
  obtain ⟨y, -, hline⟩ := exists_readsAs_real x
  exact hline

end NameRecovery.Json
