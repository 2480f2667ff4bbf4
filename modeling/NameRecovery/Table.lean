/-!
# Tables in order of first entry

A `Table` maps texts to values and remembers the order in which its keys were
first entered.  Entering a key again replaces its value and keeps its place.

* `find?_put_self`, `find?_put_of_ne` — what a look-up sees after an entry;
* `keys_put` — the keys after an entry: unchanged for a known key, extended at
  the end by a new one.
-/

namespace NameRecovery

/-- Entries with distinct keys, in order of first entry. -/
abbrev Table (α : Type) := List (String × α)

namespace Table

variable {α β : Type}

/-- The value under a key. -/
def find? (table : Table α) (key : String) : Option α :=
  table.lookup key

/-- Does the table have the key? -/
def has (table : Table α) (key : String) : Bool :=
  (table.find? key).isSome

/-- The keys, in order. -/
def keys (table : Table α) : List String :=
  table.map Prod.fst

/-- The values, in order of their keys. -/
def values (table : Table α) : List α :=
  table.map Prod.snd

/-- Enter a value: in place of the old one, or at the end. -/
def put : Table α → String → α → Table α
  | [], key, value => [(key, value)]
  | (k, v) :: rest, key, value =>
    if k = key then (k, value) :: rest else (k, v) :: put rest key value

/-- The table of a list of entries, entered one after the other. -/
def ofList (entries : List (String × α)) : Table α :=
  entries.foldl (fun table entry => table.put entry.1 entry.2) []

theorem find?_put_self (table : Table α) (key : String) (value : α) :
    (table.put key value).find? key = some value := by
  induction table with
  | nil => simp [put, find?]
  | cons entry rest ih =>
    obtain ⟨k, v⟩ := entry
    by_cases h : k = key
    · simp [put, find?, h]
    · have hk : (key == k) = false := by simpa using fun e => h e.symm
      simpa [put, find?, h, List.lookup_cons, hk] using ih

theorem find?_put_of_ne (table : Table α) {key other : String} (value : α) (h : other ≠ key) :
    (table.put key value).find? other = table.find? other := by
  have hb : (other == key) = false := beq_false_of_ne h
  induction table with
  | nil => simp [put, find?, List.lookup_cons, hb]
  | cons entry rest ih =>
    obtain ⟨k, v⟩ := entry
    by_cases hk : k = key
    · subst hk
      simp [put, find?, List.lookup_cons, hb]
    · by_cases ho : other = k
      · simp [put, find?, hk, ho]
      · have hc : (other == k) = false := beq_false_of_ne ho
        simpa [put, find?, hk, List.lookup_cons, hc] using ih

theorem keys_put (table : Table α) (key : String) (value : α) :
    (table.put key value).keys =
      if key ∈ table.keys then table.keys else table.keys ++ [key] := by
  induction table with
  | nil => simp [put, keys]
  | cons entry rest ih =>
    obtain ⟨k, v⟩ := entry
    by_cases h : k = key
    · simp [put, keys, h]
    · have hne : ¬ key = k := fun e => h e.symm
      simp only [keys] at ih
      simp only [put, h, if_false, keys, List.map_cons, ih, List.mem_cons, hne, false_or]
      split <;> simp_all

end Table
end NameRecovery
