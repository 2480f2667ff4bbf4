import NameRecovery.Decimal.Shortest
import Mathlib.Algebra.Order.Ring.Nat

/-!
# The shortest decimal of a number is not zero

The search for the shortest decimal ends with digits that are not all zero: a decimal that
rounds to a positive number is positive, and when no grid has one, the digits that are cut
off are those of a number in its own power of ten.

* `Interval.Reaches` — is the number at least that power of ten?
* `Binary.shortest_pos` — the digits found for a positive number are positive.
-/

namespace NameRecovery.Decimal

theorem tenTo_pos (n : Nat) : 0 < tenTo n :=
  Nat.pow_pos (by decide)

theorem tenTo_mono {m n : Nat} (h : m ≤ n) : tenTo m ≤ tenTo n :=
  Nat.pow_le_pow_right (by decide) h

theorem tenTo_mul (m n : Nat) : tenTo (m * n) = tenTo m ^ n :=
  Nat.pow_mul 10 m n

theorem twoTo_mul (m n : Nat) : twoTo (m * n) = twoTo m ^ n :=
  Nat.pow_mul 2 m n

theorem twoTo_mono {m n : Nat} (h : m ≤ n) : twoTo m ≤ twoTo n :=
  Nat.pow_le_pow_right (by decide) h

theorem twoTo_pos (n : Nat) : 0 < twoTo n :=
  Nat.pow_pos (by decide)

namespace Interval

variable {i : Interval}

/-- Is the number at least the power of ten below the given one? -/
def Reaches (i : Interval) (e : Int) : Prop :=
  i.scale * tenTo (e - 1).toNat ≤ i.value * tenTo (1 - e).toNat

theorem digits_pos_of_holds (hlow : 0 < i.low) {d : Numeral} (h : i.holds d = true) :
    0 < d.digits := by
  rcases Nat.eq_zero_or_pos d.digits with hzero | hpos
  · have hbelow : 0 < i.low * tenTo (-d.exponent).toNat := Nat.mul_pos hlow (tenTo_pos _)
    simp only [holds, hzero, Nat.zero_mul] at h
    split at h
    · simp only [Bool.and_eq_true, decide_eq_true_eq] at h
      omega
    · simp only [Bool.and_eq_true, decide_eq_true_eq] at h
      omega
  · exact hpos

theorem holds_of_onGrid? {e : Int} {d : Numeral} (h : i.onGrid? e = some d) :
    i.holds d = true := by
  simp only [onGrid?] at h
  split at h
  · rename_i hbelow habove
    split at h
    · rw [← Option.some.inj h]
      exact hbelow
    · rw [← Option.some.inj h]
      exact habove
  · rename_i hbelow _
    rw [← Option.some.inj h]
    exact hbelow
  · rename_i _ habove
    rw [← Option.some.inj h]
    exact habove
  · cases h

theorem reaches_magnitude (fuel : Nat) {e : Int} (h : i.Reaches e) :
    i.Reaches (i.magnitude fuel e) := by
  induction fuel generalizing e with
  | zero => exact h
  | succ fuel ih =>
      rw [magnitude]
      split
      · exact h
      · rename_i hfailed
        refine ih ?_
        rw [Reaches, show e + 1 - 1 = e by omega, show 1 - (e + 1) = -e by omega]
        exact Nat.not_lt.1 hfailed

theorem shortestFrom_pos (hlow : 0 < i.low) (hscale : 0 < i.scale) {magnitude : Int}
    (hreaches : i.Reaches magnitude) (fuel : Nat) {count : Nat} (hcount : 1 ≤ count) :
    0 < (i.shortestFrom magnitude fuel count).digits := by
  induction fuel generalizing count with
  | zero =>
      refine Nat.div_pos ?_ hscale
      -- a digit more only makes the cut-off number larger
      calc i.scale ≤ i.scale * tenTo (magnitude - 1).toNat :=
            Nat.le_mul_of_pos_right _ (tenTo_pos _)
        _ ≤ i.value * tenTo (1 - magnitude).toNat := hreaches
        _ ≤ i.value * tenTo (count - magnitude).toNat :=
            Nat.mul_le_mul_left _ (tenTo_mono (by omega))
  | succ fuel ih =>
      rw [shortestFrom]
      split
      · rename_i d hd
        exact digits_pos_of_holds hlow (holds_of_onGrid? hd)
      · exact ih (by omega)

end Interval

theorem Numeral.normal_pos (fuel : Nat) {d : Numeral} (h : 0 < d.digits) :
    0 < (d.normal fuel).digits := by
  induction fuel generalizing d with
  | zero => exact h
  | succ fuel ih =>
      rw [normal]
      split
      · rename_i hcut
        simp only [Bool.and_eq_true, beq_iff_eq] at hcut
        exact ih (d := ⟨d.digits / 10, d.exponent + 1⟩) (by simp only; omega)
      · exact h

namespace Binary

/-- Numbers of the format are not smaller than the least power of ten that is tried. -/
theorem reaches_start {b : Binary} (hpos : 0 < b.mantissa) (hexp : -1074 ≤ b.exponent) :
    b.interval.Reaches (-330) := by
  have hbound : twoTo 1076 ≤ tenTo 331 :=
    calc twoTo 1076 ≤ twoTo (36 * 30) := twoTo_mono (by decide)
      _ = twoTo 36 ^ 30 := twoTo_mul 36 30
      _ ≤ tenTo 11 ^ 30 := Nat.pow_le_pow_left (by decide) 30
      _ = tenTo (11 * 30) := (tenTo_mul 11 30).symm
      _ ≤ tenTo 331 := tenTo_mono (by decide)
  have hscale : twoTo (2 - b.exponent).toNat ≤ twoTo 1076 := twoTo_mono (by omega)
  have hvalue : 1 ≤ 4 * b.mantissa * twoTo (b.exponent - 2).toNat :=
    Nat.mul_pos (by omega) (twoTo_pos _)
  calc b.interval.scale * tenTo (-330 - 1 : Int).toNat
      = twoTo (2 - b.exponent).toNat := Nat.mul_one _
    _ ≤ tenTo 331 := hscale.trans hbound
    _ ≤ 4 * b.mantissa * twoTo (b.exponent - 2).toNat * tenTo 331 :=
        Nat.le_mul_of_pos_left _ hvalue

/-- The shortest decimal of a positive number is not zero. -/
theorem shortest_pos {b : Binary} (hpos : 0 < b.mantissa) (hexp : -1074 ≤ b.exponent) :
    0 < b.shortest.digits := by
  have hlow : 0 < b.interval.low := by
    refine Nat.mul_pos ?_ (twoTo_pos _)
    split <;> omega
  exact Numeral.normal_pos 20 (b.interval.shortestFrom_pos hlow (twoTo_pos _)
    (Interval.reaches_magnitude 640 (reaches_start hpos hexp)) 17 (Nat.le_refl 1))

/-- The magnitude of a number that is not zero is positive, and its power of two bounded. -/
theorem ofBits_pos {bits : Nat} (h : bits % twoTo 63 ≠ 0) :
    0 < (ofBits (bits % twoTo 63)).mantissa ∧ -1074 ≤ (ofBits (bits % twoTo 63)).exponent := by
  have h52 : twoTo 52 = 4503599627370496 := rfl
  have h63 : twoTo 63 = 9223372036854775808 := rfl
  have h11 : twoTo 11 = 2048 := rfl
  simp only [ofBits, h52, h63, h11, Int.ofNat_eq_natCast] at h ⊢
  split <;> simp only <;> omega

end Binary

end NameRecovery.Decimal
