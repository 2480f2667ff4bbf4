import Mathlib.Data.List.Perm.Subperm
import Mathlib.Data.List.Nodup
import Mathlib.Order.Bounds.Basic
import NameRecovery.Scope.Resolver

/-!
# Numbered names are fresh

A binding that may not keep its name gets the name with a number behind it.  The
search for the number tries more numbers than there are names taken, and
different numbers make different names, so it ends at a name that is not taken.

* `numbered_injective` — the number can be read off a numbered name;
* `numbered_freshNumber_not_mem` — the name found is not taken;
* `Search` — the search step by step, without a bound on its length: it ends, at the
  least number that makes a free name (`search_freshNumber`, `Search.isLeast`).
-/

namespace NameRecovery.Scope

theorem numbered_injective (name : String) : Function.Injective (numbered name) := by
  intro a b h
  have hrepr : a.repr = b.repr := (String.append_right_inj name).1 h
  have hread : ∀ n : Nat, Nat.ofDigitChars 10 n.repr.toList 0 = n := by
    intro n
    rw [Nat.toList_repr, Nat.ofDigitChars_ten_toDigits]
  rw [← hread a, hrepr, hread b]

/-- A search that ends at a taken name has met taken names only. -/
theorem numbered_mem_of_freshNumber_mem (taken : List String) (name : String) :
    ∀ (fuel count : Nat), numbered name (freshNumber taken name fuel count) ∈ taken →
      ∀ i < fuel, numbered name (count + i) ∈ taken := by
  intro fuel
  induction fuel with
  | zero => intro _ _ i hi; omega
  | succ fuel ih =>
      intro count hmem i hi
      by_cases hcount : taken.contains (numbered name count)
      · rw [freshNumber, if_pos hcount] at hmem
        cases i with
        | zero => simpa using hcount
        | succ i =>
            have hlater := ih (count + 1) hmem i (by omega)
            rwa [Nat.add_right_comm, Nat.add_assoc] at hlater
      · rw [freshNumber, if_neg hcount] at hmem
        exact absurd (by simpa using hmem) hcount

/-- The search finds a name that is not taken, once it may try more numbers than
there are names taken. -/
theorem numbered_freshNumber_not_mem (taken : List String) (name : String) {fuel : Nat}
    (count : Nat) (hfuel : taken.length < fuel) :
    numbered name (freshNumber taken name fuel count) ∉ taken := by
  intro hmem
  have htaken := numbered_mem_of_freshNumber_mem taken name fuel count hmem
  have hinj : Function.Injective fun i => numbered name (count + i) := fun a b h =>
    Nat.add_left_cancel (numbered_injective name h)
  have hnodup : ((List.range fuel).map fun i => numbered name (count + i)).Nodup :=
    List.Nodup.map hinj List.nodup_range
  have hsub : ((List.range fuel).map fun i => numbered name (count + i)) ⊆ taken := by
    intro m hm
    obtain ⟨i, hi, rfl⟩ := List.mem_map.1 hm
    exact htaken i (List.mem_range.1 hi)
  have hlength := (hnodup.subperm hsub).length_le
  rw [List.length_map, List.length_range] at hlength
  omega

/-! ## The search without a bound -/

/-- The search for a number, from the count it stands at to the number it ends at: a taken
name sends it on to the next count. -/
inductive Search (taken : List String) (name : String) : Nat → Nat → Prop where
  | here {count : Nat} : numbered name count ∉ taken → Search taken name count count
  | next {count found : Nat} : numbered name count ∈ taken → Search taken name (count + 1) found →
      Search taken name count found

/-- The search ends at the least number from its start on that makes a free name. -/
theorem Search.isLeast {taken : List String} {name : String} {count found : Nat}
    (h : Search taken name count found) :
    IsLeast {k | count ≤ k ∧ numbered name k ∉ taken} found := by
  induction h with
  | here hfree => exact ⟨⟨Nat.le_refl _, hfree⟩, fun k hk => hk.1⟩
  | @next count found htaken _ ih =>
      obtain ⟨⟨hle, hfree⟩, hleast⟩ := ih
      refine ⟨⟨by omega, hfree⟩, fun k hk => hleast ⟨?_, hk.2⟩⟩
      rcases Nat.eq_or_lt_of_le hk.1 with rfl | hlt
      · exact absurd htaken hk.2
      · exact hlt

/-- A search may stop at a bound; if it ends at a free name, it was not stopped. -/
theorem search_of_not_mem {taken : List String} {name : String} : ∀ {fuel count : Nat},
    numbered name (freshNumber taken name fuel count) ∉ taken →
      Search taken name count (freshNumber taken name fuel count) := by
  intro fuel
  induction fuel with
  | zero => intro count h; exact .here h
  | succ fuel ih =>
      intro count h
      rw [freshNumber] at h ⊢
      split at h
      · rename_i htaken
        rw [if_pos htaken]
        exact .next (List.contains_iff_mem.1 htaken) (ih h)
      · rename_i hfree
        rw [if_neg hfree]
        exact .here h

/-- **The search ends**: there are more numbers to try than names taken. -/
theorem search_freshNumber (taken : List String) (name : String) (count : Nat) :
    Search taken name count (freshNumber taken name (taken.length + 1) count) :=
  search_of_not_mem (numbered_freshNumber_not_mem taken name count (Nat.lt_succ_self _))

end NameRecovery.Scope
