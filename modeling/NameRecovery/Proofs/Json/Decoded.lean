import NameRecovery.Proofs.Json.RoundTrip
import Mathlib.Data.List.TakeWhile

/-!
# What is read can be written and read again

The reader gives no integer that it would not read, and no object with two fields of one name:
so every value it gives reads back.

* `readNumber_readable` — an integer that was read is short enough;
* `Sound` — what the three readers keep, on any fuel;
* `readable_of_decode` — **a decoded value can be read back**.
-/

namespace NameRecovery.Json

/-! ## Numbers -/

/-- Digits are worth less than the power of ten behind them. -/
theorem digitsValue_lt {digits : List Char} (h : ∀ c ∈ digits, c.isDigit = true) :
    digitsValue digits < 10 ^ digits.length := by
  have hfold : ∀ n, digits.foldl (fun n c => n * 10 + (c.toNat - 48)) n <
      (n + 1) * 10 ^ digits.length := by
    induction digits with
    | nil => intro n; simp
    | cons c cs ih =>
        intro n
        have hc : c.toNat - 48 ≤ 9 := by
          have hdigit := h c List.mem_cons_self
          simp only [Char.isDigit, Bool.and_eq_true, decide_eq_true_eq] at hdigit
          have hhigh : c.toNat ≤ '9'.toNat := hdigit.2
          have hnine : '9'.toNat = 57 := rfl
          omega
        calc (c :: cs).foldl (fun n c => n * 10 + (c.toNat - 48)) n
            < (n * 10 + (c.toNat - 48) + 1) * 10 ^ cs.length :=
              ih (fun d hd => h d (List.mem_cons_of_mem _ hd)) _
          _ ≤ ((n + 1) * 10) * 10 ^ cs.length := Nat.mul_le_mul_right _ (by omega)
          _ = (n + 1) * 10 ^ (c :: cs).length := by
              rw [List.length_cons, Nat.pow_succ, Nat.mul_assoc, Nat.mul_comm 10]
  simpa [digitsValue] using hfold 0

theorem isDigit_wholeDigits (cs : List Char) : ∀ c ∈ wholeDigits cs, c.isDigit = true := by
  intro c hc
  simp only [wholeDigits] at hc
  split at hc
  · rw [List.mem_singleton.1 hc]
    rfl
  · exact List.mem_takeWhile_imp hc

/-- An integer that was read is short enough to be read again. -/
theorem readNumber_readable {input rest : Input} {v : Json}
    (h : readNumber input = .ok (v, rest)) : v.Readable := by
  simp only [readNumber] at h
  generalize (if input.rest.head? = some '-' then input.rest.drop 1 else input.rest) = cs at h
  have hlt := digitsValue_lt (isDigit_wholeDigits cs)
  generalize wholeDigits cs = whole at h hlt
  split at h
  · cases h
  · split at h
    · cases h
      trivial
    · split at h
      · split at h
        · cases h
        · rename_i hshort
          have hle : 10 ^ whole.length ≤ 10 ^ maxDigits :=
            Nat.pow_le_pow_right (by decide) (Nat.not_lt.1 hshort)
          cases h
          rw [Readable]
          split <;> omega
      · cases h
        trivial

theorem readAtom_readable {input rest : Input} {v : Json}
    (h : readAtom input = .ok (v, rest)) : v.Readable := by
  have hconstants : ∀ constant ∈ constants, constant.2.Readable := by
    simp [constants, Readable]
  rw [readAtom] at h
  split at h
  · rename_i name value hfound
    cases h
    exact hconstants _ (List.mem_of_find?_eq_some hfound)
  · exact readNumber_readable h

/-! ## Values -/

/-- Each of the three readers gives values that can be read back, if what it has already read
can be. -/
structure Sound (fuel : Nat) : Prop where
  /-- A value can be read back. -/
  value : ∀ {input rest v}, readValue fuel input = .ok (v, rest) → v.Readable
  /-- So can a list, if its first items can. -/
  items : ∀ {done input rest v}, (∀ item ∈ done, item.Readable) →
    readItems fuel done input = .ok (v, rest) → v.Readable
  /-- So can an object, if its first fields can. -/
  fields : ∀ {done input rest v}, (object done).Readable →
    readFields fuel done input = .ok (v, rest) → v.Readable

theorem readable_empty : (object []).Readable :=
  readable_object.2 ⟨List.nodup_nil, fun _ hfield => absurd hfield List.not_mem_nil⟩

theorem readable_put {done : Table Json} (h : (object done).Readable) (key : String) {value : Json}
    (hvalue : value.Readable) : (object (done.put key value)).Readable := by
  obtain ⟨hnodup, hfields⟩ := readable_object.1 h
  refine readable_object.2 ⟨Table.nodup_put hnodup key value, fun field hfield => ?_⟩
  rcases Table.mem_put hfield with rfl | hfield
  · exact hvalue
  · exact hfields field hfield

theorem ok_bind {ε α β : Type} {x : Except ε α} {f : α → Except ε β} {b : β}
    (h : (x >>= f) = .ok b) : ∃ a, x = .ok a ∧ f a = .ok b := by
  cases x with
  | error e => cases h
  | ok a => exact ⟨a, rfl, h⟩

theorem sound_zero : Sound 0 where
  value := fun h => by cases h
  items := fun _ h => by cases h
  fields := fun _ h => by cases h

theorem sound_succ {fuel : Nat} (ih : Sound fuel) : Sound (fuel + 1) where
  value := by
    intro input rest v h
    rw [readValue] at h
    split at h
    · obtain ⟨⟨s, input'⟩, -, h⟩ := ok_bind h
      cases h
      trivial
    · simp only at h
      split at h
      · cases h
        exact readable_empty
      · exact ih.fields readable_empty h
    · simp only at h
      split at h
      · cases h
        exact readable_array.2 fun item hitem => absurd hitem List.not_mem_nil
      · exact ih.items (fun item hitem => absurd hitem List.not_mem_nil) h
    · exact readAtom_readable h
  items := by
    intro done input rest v hdone h
    rw [readItems] at h
    obtain ⟨⟨item, input'⟩, hitem, h⟩ := ok_bind h
    have hmore : ∀ w ∈ item :: done, w.Readable :=
      List.forall_mem_cons.2 ⟨ih.value hitem, hdone⟩
    simp only at h
    split at h
    · cases h
      exact readable_array.2 fun w hw => hmore w (List.mem_reverse.1 hw)
    · exact ih.items hmore h
    · cases h
  fields := by
    intro done input rest v hdone h
    rw [readFields] at h
    split at h
    · obtain ⟨⟨name, input'⟩, -, h⟩ := ok_bind h
      simp only at h
      split at h
      · cases h
      · obtain ⟨⟨value, input''⟩, hvalue, h⟩ := ok_bind h
        have hmore := readable_put hdone name (ih.value hvalue)
        simp only at h
        split at h
        · cases h
          exact hmore
        · exact ih.fields hmore h
        · cases h
    · cases h

theorem sound (fuel : Nat) : Sound fuel := by
  induction fuel with
  | zero => exact sound_zero
  | succ fuel ih => exact sound_succ ih

/-- **A decoded value can be read back.** -/
theorem readable_of_decode {s : String} {v : Json} (h : decode s = .ok v) : v.Readable := by
  rw [decode] at h
  split at h
  · rename_i value hvalue
    cases h
    rw [decodeChars] at hvalue
    split at hvalue
    · cases hvalue
    · split at hvalue
      · cases hvalue
      · rename_i value' input hread
        simp only at hvalue
        split at hvalue
        · cases hvalue
          exact (sound _).value hread
        · cases hvalue
  · cases h

end NameRecovery.Json
