import NameRecovery.Table

/-!
# Look-ups in tables

Which keys a table has after an entry.
-/

namespace NameRecovery.Table

variable {α : Type}

theorem has_eq_true_iff (table : Table α) (key : String) :
    table.has key = true ↔ ∃ value, table.find? key = some value := by
  rw [has, Option.isSome_iff_exists]

@[simp] theorem has_nil (key : String) : Table.has ([] : Table α) key = false := rfl

@[simp] theorem has_put (table : Table α) (key other : String) (value : α) :
    (table.put key value).has other = (decide (other = key) || table.has other) := by
  by_cases h : other = key
  · subst h
    simp [has, find?_put_self]
  · simp [has, find?_put_of_ne table value h, h]

theorem find?_put (table : Table α) (key other : String) (value : α) :
    (table.put key value).find? other = if other = key then some value else table.find? other := by
  by_cases h : other = key
  · subst h
    rw [find?_put_self, if_pos rfl]
  · rw [find?_put_of_ne table value h, if_neg h]

/-- The last entry is entered last. -/
theorem ofList_concat (entries : List (String × α)) (last : String × α) :
    Table.ofList (entries ++ [last]) = (Table.ofList entries).put last.1 last.2 := by
  rw [ofList, List.foldl_append]
  rfl

/-- A table of entries has just their keys. -/
theorem has_ofList (entries : List (String × α)) (key : String) :
    (Table.ofList entries).has key = entries.any fun entry => entry.1 == key := by
  have hfold : ∀ table : Table α,
      (entries.foldl (fun table entry => table.put entry.1 entry.2) table).has key =
        (table.has key || entries.any fun entry => entry.1 == key) := by
    induction entries with
    | nil => intro table; simp
    | cons entry rest ih =>
        intro table
        rw [List.foldl_cons, ih, has_put, List.any_cons, Bool.or_left_comm, Bool.or_assoc]
        have hsame : decide (key = entry.1) = (entry.1 == key) := by
          rw [Bool.eq_iff_iff, decide_eq_true_eq, beq_iff_eq]
          exact eq_comm
        rw [hsame]
  exact hfold []

theorem find?_eq_none_of_not_mem {table : Table α} {key : String} (h : key ∉ table.keys) :
    table.find? key = none := by
  refine List.lookup_eq_none_iff.2 fun entry hmem => ?_
  have hne : key ≠ entry.1 := fun heq => h (heq ▸ List.mem_map_of_mem hmem)
  simpa using hne

theorem mem_of_find? {table : Table α} {key : String} {value : α}
    (h : table.find? key = some value) : (key, value) ∈ table := by
  obtain ⟨l₁, l₂, heq, -⟩ := List.lookup_eq_some_iff.1 h
  rw [heq]
  simp

theorem mem_put {table : Table α} {key : String} {value : α} {entry : String × α}
    (h : entry ∈ table.put key value) : entry = (key, value) ∨ entry ∈ table := by
  induction table with
  | nil => exact .inl (List.mem_singleton.1 h)
  | cons first rest ih =>
      rw [put] at h
      split at h
      · rename_i hkey
        rcases List.mem_cons.1 h with rfl | h
        · exact .inl (by rw [hkey])
        · exact .inr (List.mem_cons_of_mem _ h)
      · rcases List.mem_cons.1 h with rfl | h
        · exact .inr List.mem_cons_self
        · exact (ih h).imp_right (List.mem_cons_of_mem _)

/-- The entries after an entry, in a table without repeated keys. -/
theorem mem_put_iff {table : Table α} (h : table.keys.Nodup) {key : String} {value : α}
    {entry : String × α} :
    entry ∈ table.put key value ↔ entry = (key, value) ∨ entry ∈ table ∧ entry.1 ≠ key := by
  induction table with
  | nil => simp [put]
  | cons first rest ih =>
      obtain ⟨k, v⟩ := first
      obtain ⟨hfirst, hrest⟩ := List.nodup_cons.1 h
      rw [put]
      split
      · rename_i hkey
        subst hkey
        have hother : entry ∈ rest → entry.1 ≠ k := by
          intro hmem heq
          exact hfirst (List.mem_map.2 ⟨entry, hmem, heq⟩)
        rw [List.mem_cons, List.mem_cons, or_and_right]
        constructor
        · exact Or.imp_right fun hmem => .inr ⟨hmem, hother hmem⟩
        · rintro (heq | ⟨rfl, hne⟩ | ⟨hmem, -⟩)
          · exact .inl heq
          · exact absurd rfl hne
          · exact .inr hmem
      · rename_i hkey
        rw [List.mem_cons, List.mem_cons, ih hrest]
        constructor
        · rintro (rfl | heq | ⟨hmem, hne⟩)
          · exact .inr ⟨.inl rfl, hkey⟩
          · exact .inl heq
          · exact .inr ⟨.inr hmem, hne⟩
        · rintro (heq | ⟨rfl | hmem, hne⟩)
          · exact .inr (.inl heq)
          · exact .inl rfl
          · exact .inr (.inr ⟨hmem, hne⟩)

/-- A new key is entered at the end. -/
theorem put_new {table : Table α} {key : String} (h : key ∉ table.keys) (value : α) :
    table.put key value = table ++ [(key, value)] := by
  induction table with
  | nil => rfl
  | cons entry rest ih =>
      obtain ⟨k, v⟩ := entry
      rw [keys, List.map_cons, List.mem_cons, not_or] at h
      rw [put, if_neg (Ne.symm h.1), ih h.2, List.cons_append]

/-- No entry repeats a key. -/
theorem nodup_put {table : Table α} (h : table.keys.Nodup) (key : String) (value : α) :
    (table.put key value).keys.Nodup := by
  rw [keys_put]
  split
  · exact h
  · rename_i hnew
    refine List.nodup_append.2 ⟨h, List.pairwise_singleton _ key, ?_⟩
    intro other hother new hmem
    rw [List.mem_singleton.1 hmem]
    rintro rfl
    exact hnew hother

/-- A table of entries has no others. -/
theorem mem_ofList {entries : List (String × α)} {entry : String × α}
    (h : entry ∈ Table.ofList entries) : entry ∈ entries := by
  have hfold : ∀ (entries : List (String × α)) (table : Table α),
      entry ∈ entries.foldl (fun table entry => table.put entry.1 entry.2) table →
        entry ∈ entries ∨ entry ∈ table := by
    intro entries
    induction entries with
    | nil => exact fun table h => .inr h
    | cons first rest ih =>
        intro table h
        rcases ih _ h with h | h
        · exact .inl (List.mem_cons_of_mem _ h)
        · rcases mem_put h with rfl | h
          · exact .inl List.mem_cons_self
          · exact .inr h
  exact (hfold entries [] h).resolve_right List.not_mem_nil

/-- Entries with different keys are a table. -/
theorem ofList_of_nodup {entries : List (String × α)} (h : (entries.map Prod.fst).Nodup) :
    Table.ofList entries = entries := by
  have hfold : ∀ (entries : List (String × α)) (table : Table α),
      (table.keys ++ entries.map Prod.fst).Nodup →
        entries.foldl (fun table entry => table.put entry.1 entry.2) table = table ++ entries := by
    intro entries
    induction entries with
    | nil => exact fun table _ => (List.append_nil table).symm
    | cons entry rest ih =>
        intro table hnodup
        have hnew : entry.1 ∉ table.keys := fun hmem =>
          (List.nodup_append.1 hnodup).2.2 entry.1 hmem entry.1 (by simp) rfl
        rw [List.foldl_cons, put_new hnew, ih, List.append_assoc]
        · rfl
        · simpa [keys] using hnodup
  exact hfold entries [] (by simpa [keys] using h)

end NameRecovery.Table
