import NameRecovery.Proofs.Renaming
import NameRecovery.Proofs.Table
import NameRecovery.Mining
import NameRecovery.Profile

/-!
# Names composed with labels

Both inference passes give a name a label: the new name is the label, the separator and
the old name.  Composed names are not compared with the names already there, nor with
each other, so that two names can get the same spelling.

* `Labelled` — the new names of a table are composed with labels;
* `Clash` — two names get the same spelling, by their labels;
* `Labelled.spell_eq_iff` — no other two names do.
-/

namespace NameRecovery

/-- The name composed of a label and an old name. -/
def composed (label name : String) : String :=
  label ++ "$" ++ name

/-- Is every new name of the table composed of a label and the old name? -/
def Labelled (table : Table String) : Prop :=
  ∀ name new, table.find? name = some new → ∃ label, new = composed label name

/-- Does the first name get the spelling of the second?  Either the second one keeps its
spelling, which is the composed name of the first, or it gets a new one too: then it
ends with the first, and the label of the first says the rest. -/
def Clash (table : Table String) (a b : String) : Prop :=
  (∃ label, table.find? a = some (composed label a) ∧ table.find? b = none ∧
    b = composed label a) ∨
  (∃ label rest, table.find? a = some (composed (composed label rest) a) ∧
    table.find? b = some (composed label b) ∧ b = composed rest a)

/-! ## Equal composed names -/

theorem composed_composed (label rest name : String) :
    composed (composed label rest) name = composed label (composed rest name) := by
  simp only [composed, String.append_assoc]

theorem toList_composed (label name : String) :
    (composed label name).toList = label.toList ++ '$' :: name.toList := by
  simp [composed]

/-- Of two different names with the same composed name, one ends with the other. -/
theorem composed_eq_of_longer {label label' name name' : String}
    (h : composed label name = composed label' name') {rest : List Char}
    (hrest : name'.toList = rest ++ name.toList) (hne : name ≠ name') :
    ∃ between, name' = composed between name ∧ label = composed label' between := by
  have hlist := congrArg String.toList h
  rw [toList_composed, toList_composed, hrest] at hlist
  have hsame : (label.toList ++ ['$']) ++ name.toList =
      (label'.toList ++ '$' :: rest) ++ name.toList := by
    simpa using hlist
  -- The rest cannot be empty, so that it ends with the separator, too.
  rcases List.eq_nil_or_concat rest with rfl | ⟨front, last, rfl⟩
  · exact absurd (String.toList_injective (by simpa using hrest.symm)) hne
  · have hsplit : label.toList ++ ['$'] = (label'.toList ++ '$' :: front) ++ [last] := by
      simpa using List.append_cancel_right hsame
    obtain ⟨hlabel, hlast⟩ := List.append_inj' hsplit rfl
    obtain rfl : '$' = last := by simpa using hlast
    refine ⟨String.ofList front, ?_, ?_⟩
    · apply String.toList_injective
      rw [toList_composed, hrest]
      simp
    · apply String.toList_injective
      rw [toList_composed, hlabel]
      simp

theorem composed_eq_iff {label label' name name' : String} (hne : name ≠ name') :
    composed label name = composed label' name' ↔
      (∃ rest, name' = composed rest name ∧ label = composed label' rest) ∨
        (∃ rest, name = composed rest name' ∧ label' = composed label rest) := by
  constructor
  · intro h
    have hlist := congrArg String.toList h
    rw [toList_composed, toList_composed] at hlist
    have hname : name.toList <:+ label.toList ++ '$' :: name.toList :=
      ⟨label.toList ++ ['$'], by simp⟩
    have hname' : name'.toList <:+ label.toList ++ '$' :: name.toList := by
      rw [hlist]
      exact ⟨label'.toList ++ ['$'], by simp⟩
    rcases List.suffix_or_suffix_of_suffix hname hname' with ⟨rest, hrest⟩ | ⟨rest, hrest⟩
    · exact .inl (composed_eq_of_longer h hrest.symm hne)
    · exact .inr (composed_eq_of_longer h.symm hrest.symm hne.symm)
  · rintro (⟨rest, rfl, rfl⟩ | ⟨rest, rfl, rfl⟩)
    · exact composed_composed ..
    · exact (composed_composed ..).symm

/-! ## Clashes -/

/-- Two different names get the same spelling exactly if they clash. -/
theorem Labelled.spell_eq_iff {table : Table String} (h : Labelled table) {a b : String}
    (hne : a ≠ b) : table.spell a = table.spell b ↔ Clash table a b ∨ Clash table b a := by
  constructor
  · intro hsame
    rw [Table.spell, Table.spell] at hsame
    cases ha : table.find? a with
    | none =>
        cases hb : table.find? b with
        | none =>
            rw [ha, hb] at hsame
            exact absurd hsame hne
        | some new =>
            obtain ⟨label, rfl⟩ := h b new hb
            rw [ha, hb] at hsame
            exact .inr (.inl ⟨label, hb, ha, hsame⟩)
    | some new =>
        obtain ⟨label, rfl⟩ := h a new ha
        cases hb : table.find? b with
        | none =>
            rw [ha, hb] at hsame
            exact .inl (.inl ⟨label, ha, hb, hsame.symm⟩)
        | some new' =>
            obtain ⟨label', rfl⟩ := h b new' hb
            rw [ha, hb] at hsame
            rcases (composed_eq_iff hne).1 hsame with ⟨rest, hend, rfl⟩ | ⟨rest, hend, rfl⟩
            · exact .inl (.inr ⟨label', rest, ha, hb, hend⟩)
            · exact .inr (.inr ⟨label, rest, hb, ha, hend⟩)
  · have hclash : ∀ {a b}, Clash table a b → table.spell a = table.spell b := by
      rintro a b (⟨label, ha, hb, hend⟩ | ⟨label, rest, ha, hb, hend⟩)
      · rw [Table.spell, Table.spell, ha, hb]
        exact hend.symm
      · rw [Table.spell, Table.spell, ha, hb, hend]
        exact composed_composed ..
    rintro (h | h)
    · exact hclash h
    · exact (hclash h).symm

/-! ## The tables of the passes -/

/-- The table of a mining round: the new names that a text shows, of those declared. -/
def minedTable (separator text : String) (declared : List String) : Table String :=
  (Mining.renames separator (Mining.candidates Mining.defaultExcluded text)).filter fun entry =>
    declared.contains entry.1

/-- The table of the pass that looks at contexts: the new names for short names. -/
def contextTable (separator : String) (histogram : Histogram) (declared : List String) :
    Table String :=
  longNames separator (deriveLabels separator histogram) (some declared)

theorem minedTable_labelled (text : String) (declared : List String) :
    Labelled (minedTable "$" text declared) := by
  intro name new hfind
  have hmem := Table.mem_ofList (List.mem_filter.1 (Table.mem_of_find? hfind)).1
  obtain ⟨candidate, -, heq⟩ := List.mem_map.1 hmem
  obtain ⟨rfl, rfl⟩ := Prod.mk.inj heq
  exact ⟨candidate.label, rfl⟩

theorem contextTable_labelled (histogram : Histogram) (declared : List String) :
    Labelled (contextTable "$" histogram declared) := by
  intro name new hfind
  obtain ⟨entry, -, heq⟩ := List.mem_filterMap.1 (Table.mem_of_find? hfind)
  dsimp only at heq
  split at heq
  · cases heq
  · obtain ⟨rfl, rfl⟩ := Prod.mk.inj (Option.some.inj heq)
    exact ⟨String.intercalate "$" entry.2, rfl⟩

end NameRecovery
