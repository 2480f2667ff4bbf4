import Mathlib.Data.List.Induction
import NameRecovery.Config
import NameRecovery.Proofs.Table

/-!
# Settings stay valid, and merging composes

Settings are checked one by one, each by its own value, and an accepted value is kept in a
form that is accepted again.  So whatever is laid over accepted settings, the check of the
whole comes to the same, first error included, whether the settings below are given as they
were written or as they were kept.

* `Acceptable` — the constraints on the settings, as values under their names;
* `Accepts` — what the check of fields reads off them;
* `check_overlay` — accepted fields may be replaced by the settings made of them;
* `settings_valid_and_composed` — all settings are acceptable, and two mergers are one.
-/

namespace NameRecovery

namespace Table

variable {α : Type}

/-- A table of entries has its keys in the order in which they were first entered. -/
theorem find?_keys_ofList (entries : List (String × α)) (p : String → Bool) :
    (Table.ofList entries).keys.find? p = (entries.map Prod.fst).find? p := by
  induction entries using List.reverseRecOn with
  | nil => rfl
  | append_singleton entries last ih =>
      rw [ofList_concat, keys_put, List.map_append, List.find?_append, ← ih]
      split
      · rename_i hmem
        cases hfind : (Table.ofList entries).keys.find? p with
        | some key => rfl
        | none =>
            have hnot := List.find?_eq_none.1 hfind last.1 hmem
            simp [hnot]
      · rw [List.find?_append]
        rfl

theorem has_eq_any (table : Table α) (key : String) :
    table.has key = table.any fun entry => entry.1 == key := by
  induction table with
  | nil => rfl
  | cons entry rest ih =>
      rw [has, find?, List.lookup_cons, List.any_cons, ← ih, has, find?, Bool.beq_comm]
      cases entry.1 == key <;> rfl

theorem nodup_ofList (entries : List (String × α)) : (Table.ofList entries).keys.Nodup := by
  induction entries using List.reverseRecOn with
  | nil => exact List.nodup_nil
  | append_singleton entries last ih =>
      rw [ofList_concat]
      exact nodup_put ih _ _

end Table

namespace Config

open Table

/-! ## Fields over fields -/

section Overlay

variable {α : Type}

/-- A look-up finds the value laid over the others, or else the one below. -/
theorem find?_overlay (fields changes : Table Json) (key : String) :
    (overlay fields changes).find? key =
      ((Table.ofList changes).find? key).or (fields.find? key) := by
  induction changes using List.reverseRecOn with
  | nil => rfl
  | append_singleton changes last ih =>
      have hoverlay : overlay fields (changes ++ [last]) =
          (overlay fields changes).put last.1 last.2 := by
        rw [overlay, List.foldl_append]
        rfl
      rw [hoverlay, ofList_concat, find?_put, find?_put, ih]
      split <;> rfl

theorem valueOf_overlay_ofList (fields changes : Table Json) (key : String) :
    valueOf (overlay fields (Table.ofList changes)) key = valueOf (overlay fields changes) key := by
  rw [valueOf, valueOf, find?_overlay, find?_overlay, ofList_of_nodup (nodup_ofList changes)]

/-- Fields laid over others one after the other are laid over them at once. -/
theorem overlay_append (fields changes more : Table Json) :
    overlay fields (changes ++ more) = overlay (overlay fields changes) more :=
  List.foldl_append

/-- What is read off one value is the same below the same changes. -/
theorem read_overlay (key : String) {read : Table Json → α}
    (hread : ∀ {fields fields'}, valueOf fields key = valueOf fields' key →
      read fields = read fields')
    {fields fields' : Table Json} (h : read fields = read fields') (changes : Table Json) :
    read (overlay fields changes) = read (overlay fields' changes) := by
  cases hfind : (Table.ofList changes).find? key with
  | some value =>
      refine hread ?_
      rw [valueOf, valueOf, find?_overlay, find?_overlay, hfind, Option.some_or, Option.some_or]
  | none =>
      have hbelow : ∀ fields, valueOf (overlay fields changes) key = valueOf fields key :=
        fun fields => by rw [valueOf, valueOf, find?_overlay, hfind, Option.none_or]
      rw [hread (hbelow fields), hread (hbelow fields'), h]

end Overlay

/-! ## Single settings -/

theorem count_congr {fields fields' : Table Json} {key : String}
    (h : valueOf fields key = valueOf fields' key) : count fields key = count fields' key := by
  rw [count, count, h]

theorem flag_congr {fields fields' : Table Json} {key : String}
    (h : valueOf fields key = valueOf fields' key) : flag fields key = flag fields' key := by
  rw [flag, flag, h]

theorem checkSeparator_eq_ok_iff (value : Json) (s : String) :
    checkSeparator value = .ok s ↔
      value = .text s ∧ s ≠ "" ∧ ∀ c ∈ s.toList, Text.isNameChar c = true := by
  cases value with
  | text s' =>
      rw [checkSeparator]
      split
      · rename_i h
        rw [List.all_eq_true] at h
        constructor
        · intro heq
          obtain rfl := Except.ok.inj heq
          exact ⟨rfl, h⟩
        · rintro ⟨heq, -⟩
          rw [Json.text.inj heq]
      · rename_i h
        rw [List.all_eq_true] at h
        refine ⟨nofun, ?_⟩
        rintro ⟨heq, hs⟩
        exact absurd (Json.text.inj heq ▸ hs) h
  | _ => exact ⟨nofun, nofun⟩

theorem checkIndent_eq_ok_iff (value : Json) (s : String) :
    checkIndent value = .ok s ↔ value = .text s ∧ ∀ c ∈ s.toList, Text.isBlank c = true := by
  cases value with
  | text s' =>
      rw [checkIndent]
      split
      · rename_i h
        rw [List.all_eq_true] at h
        constructor
        · intro heq
          obtain rfl := Except.ok.inj heq
          exact ⟨rfl, h⟩
        · rintro ⟨heq, -⟩
          rw [Json.text.inj heq]
      · rename_i h
        rw [List.all_eq_true] at h
        refine ⟨nofun, ?_⟩
        rintro ⟨heq, hs⟩
        exact absurd (Json.text.inj heq ▸ hs) h
  | _ => exact ⟨nofun, nofun⟩

theorem checkGoal_name (goal : Grammar.Goal) : checkGoal (.text goal.name) = .ok goal := by
  cases goal <;> rfl

theorem checkStoplist_texts (names : List String) : checkStoplist (.texts names) = .ok names := by
  have hread : (names.map Json.text).mapM Json.text? = some names := by
    induction names with
    | nil => rfl
    | cons name rest ih => rw [List.map_cons, List.mapM_cons, ih]; rfl
  rw [Json.texts, checkStoplist, hread]

/-! ## The check of all settings -/

/-- The settings that the check reads off the fields: each is accepted by itself. -/
structure Accepts (fields : Table Json) (config : Config) : Prop where
  miningRounds : count fields "mining_rounds" = .ok config.miningRounds
  maxRounds : count fields "max_rounds" = .ok config.maxRounds
  maxRounds_pos : 1 ≤ config.maxRounds
  untilConverged : flag fields "until_converged" = .ok config.untilConverged
  nameFunctions : flag fields "name_functions" = .ok config.nameFunctions
  separator : checkSeparator (valueOf fields "separator") = .ok config.separator
  goal : checkGoal (valueOf fields "source_type") = .ok config.goal
  indent : checkIndent (valueOf fields "indent") = .ok config.indent
  stoplist : checkStoplist (valueOf fields "stoplist") = .ok config.stoplist

theorem bind_eq_ok {ε α β : Type} {x : Except ε α} {f : α → Except ε β} {b : β}
    (h : x >>= f = .ok b) : ∃ a, x = .ok a ∧ f a = .ok b := by
  cases x with
  | error e => cases h
  | ok a => exact ⟨a, rfl, h⟩

/-- The check succeeds where every setting is accepted. -/
theorem check_eq_ok_iff (fields : Table Json) (config : Config) :
    check fields = .ok config ↔ Accepts fields config := by
  constructor
  · intro h
    obtain ⟨miningRounds, h₁, h⟩ := bind_eq_ok h
    obtain ⟨maxRounds, h₂, h⟩ := bind_eq_ok h
    by_cases hpos : maxRounds < 1
    · rw [if_pos hpos] at h
      cases h
    rw [if_neg hpos] at h
    obtain ⟨untilConverged, h₃, h⟩ := bind_eq_ok h
    obtain ⟨nameFunctions, h₄, h⟩ := bind_eq_ok h
    obtain ⟨separator, h₅, h⟩ := bind_eq_ok h
    obtain ⟨goal, h₆, h⟩ := bind_eq_ok h
    obtain ⟨indent, h₇, h⟩ := bind_eq_ok h
    obtain ⟨stoplist, h₈, h⟩ := bind_eq_ok h
    obtain rfl := Except.ok.inj h
    exact ⟨h₁, h₂, Nat.le_of_not_lt hpos, h₃, h₄, h₅, h₆, h₇, h₈⟩
  · intro h
    rw [check, h.miningRounds, h.maxRounds, h.untilConverged, h.nameFunctions, h.separator,
      h.goal, h.indent, h.stoplist]
    simp only [bind, Except.bind, if_neg (Nat.not_lt.2 h.maxRounds_pos)]
    rfl

/-- Accepted settings are accepted again. -/
theorem Accepts.toFields {fields : Table Json} {config : Config} (h : Accepts fields config) :
    Accepts config.toFields config where
  miningRounds := rfl
  maxRounds := rfl
  maxRounds_pos := h.maxRounds_pos
  untilConverged := rfl
  nameFunctions := rfl
  separator := (checkSeparator_eq_ok_iff _ _).2
    ⟨rfl, ((checkSeparator_eq_ok_iff _ _).1 h.separator).2⟩
  goal := checkGoal_name config.goal
  indent := (checkIndent_eq_ok_iff _ _).2 ⟨rfl, ((checkIndent_eq_ok_iff _ _).1 h.indent).2⟩
  stoplist := checkStoplist_texts config.stoplist

/-- The check of fields depends on what each setting is read as. -/
theorem check_congr {fields fields' : Table Json}
    (h : ∀ key, valueOf fields key = valueOf fields' key) : check fields = check fields' := by
  simp only [check, count_congr (h _), flag_congr (h _), h]

/-- **Accepted fields may be replaced** by the settings made of them, whatever is laid over
them: the check comes to the same settings or to the same error. -/
theorem check_overlay {fields : Table Json} {config : Config} (h : Accepts fields config)
    (changes : Table Json) :
    check (overlay fields changes) = check (overlay config.toFields changes) := by
  have hkept := h.toFields
  have hcount : ∀ key, count fields key = count config.toFields key →
      count (overlay fields changes) key = count (overlay config.toFields changes) key :=
    fun key hkey => read_overlay key count_congr hkey changes
  have hflag : ∀ key, flag fields key = flag config.toFields key →
      flag (overlay fields changes) key = flag (overlay config.toFields changes) key :=
    fun key hkey => read_overlay key flag_congr hkey changes
  have hvalue : ∀ {α : Type} (read : Json → Except Failure α) (key : String),
      read (valueOf fields key) = read (valueOf config.toFields key) →
      read (valueOf (overlay fields changes) key) =
        read (valueOf (overlay config.toFields changes) key) :=
    fun read key hkey => read_overlay key (congrArg read) hkey changes
  rw [check, check,
    hcount "mining_rounds" (h.miningRounds.trans hkept.miningRounds.symm),
    hcount "max_rounds" (h.maxRounds.trans hkept.maxRounds.symm),
    hflag "until_converged" (h.untilConverged.trans hkept.untilConverged.symm),
    hflag "name_functions" (h.nameFunctions.trans hkept.nameFunctions.symm),
    hvalue checkSeparator "separator" (h.separator.trans hkept.separator.symm),
    hvalue checkGoal "source_type" (h.goal.trans hkept.goal.symm),
    hvalue checkIndent "indent" (h.indent.trans hkept.indent.symm),
    hvalue checkStoplist "stoplist" (h.stoplist.trans hkept.stoplist.symm)]

/-! ## Merging -/

/-- The changes with a value. -/
def given (changes : Table Json) : Table Json :=
  changes.filter fun change => isGiven change.2

/-- The changes with a value, overridden by others with a value. -/
def overridden (changes more : Table Json) : Table Json :=
  Table.ofList (given changes ++ given more)

theorem merge_eq (config : Config) (changes : Table Json) :
    config.merge changes =
      if changes.has reservedKey then .error (.trouble .reservedSetting)
      else if (given changes).isEmpty then .ok config
      else
        match (given changes).keys.find? fun key => !settings.contains key with
        | some key => .error (.trouble (.unknownSetting key))
        | none => check (overlay config.toFields (given changes)) := by
  rw [merge, merge?, ← given]
  split
  · rfl
  · split
    · rfl
    · cases (given changes).keys.find? fun key => !settings.contains key <;> rfl

/-- A merger succeeds where no value is given, or the values given are those of settings and
the check accepts them over the others. -/
theorem merge_eq_ok {config merged : Config} {changes : Table Json}
    (h : config.merge changes = .ok merged) :
    changes.has reservedKey = false ∧
      (given changes = [] ∧ merged = config ∨
        given changes ≠ [] ∧
          ((given changes).keys.find? fun key => !settings.contains key) = none ∧
          Accepts (overlay config.toFields (given changes)) merged) := by
  rw [merge_eq] at h
  split at h
  · cases h
  · rename_i hreserved
    refine ⟨by simpa using hreserved, ?_⟩
    split at h
    · rename_i hempty
      exact .inl ⟨List.isEmpty_iff.1 hempty, (Except.ok.inj h).symm⟩
    · rename_i hgiven
      split at h
      · cases h
      · exact .inr ⟨fun hnil => hgiven (by rw [hnil]; rfl), ‹_›, (check_eq_ok_iff _ _).1 h⟩

/-- Everything in a table of values given is given. -/
theorem given_overridden (changes more : Table Json) :
    given (overridden changes more) = overridden changes more := by
  refine List.filter_eq_self.2 fun change hchange => ?_
  rcases List.mem_append.1 (Table.mem_ofList hchange) with h | h
  · exact (List.mem_filter.1 h).2
  · exact (List.mem_filter.1 h).2

theorem has_overridden (changes more : Table Json) (key : String) :
    (overridden changes more).has key = ((given changes).has key || (given more).has key) := by
  rw [overridden, Table.has_ofList, List.any_append, Table.has_eq_any, Table.has_eq_any]

theorem has_given {changes : Table Json} {key : String} (h : changes.has key = false) :
    (given changes).has key = false := by
  rw [Table.has_eq_any, List.any_eq_false] at h ⊢
  exact fun change hchange => h change (List.mem_filter.1 hchange).1

/-- A merger with overridden changes, by the entries of both. -/
theorem merge_overridden (config : Config) {changes more : Table Json}
    (h : changes.has reservedKey = false) (hmore : more.has reservedKey = false) :
    config.merge (overridden changes more) =
      if (given changes ++ given more).isEmpty then .ok config
      else
        match ((given changes ++ given more).map Prod.fst).find?
          fun key => !settings.contains key with
        | some key => .error (.trouble (.unknownSetting key))
        | none => check (overlay (overlay config.toFields (given changes)) (given more)) := by
  have hreserved : (overridden changes more).has reservedKey = false := by
    rw [has_overridden, has_given h, has_given hmore]
    rfl
  have hempty : (overridden changes more).isEmpty = (given changes ++ given more).isEmpty := by
    rw [Bool.eq_iff_iff, List.isEmpty_iff, List.isEmpty_iff]
    constructor
    · intro hnil
      refine List.eq_nil_iff_forall_not_mem.2 fun change hchange => ?_
      have hhas : (overridden changes more).has change.1 = true := by
        rw [overridden, Table.has_ofList]
        exact List.any_eq_true.2 ⟨change, hchange, beq_self_eq_true _⟩
      rw [hnil] at hhas
      cases hhas
    · intro hnil
      rw [overridden, hnil]
      rfl
  have hcheck : check (overlay config.toFields (overridden changes more)) =
      check (overlay (overlay config.toFields (given changes)) (given more)) := by
    rw [← overlay_append]
    exact check_congr fun key => valueOf_overlay_ofList ..
  rw [merge_eq, hreserved, given_overridden, hempty, hcheck, overridden, Table.find?_keys_ofList]
  rfl

/-- Two mergers are one, where the name that stands for the settings is not used. -/
theorem merge_merge_unreserved {config merged : Config} {changes : Table Json}
    (h : config.merge changes = .ok merged) {more : Table Json}
    (hmore : more.has reservedKey = false) :
    merged.merge more = config.merge (overridden changes more) := by
  obtain ⟨hreserved, ⟨hempty, rfl⟩ | ⟨hgiven, hknown, haccepts⟩⟩ := merge_eq_ok h
  · -- Nothing is given below.
    rw [merge_overridden merged hreserved hmore, merge_eq, hmore, hempty]
    rfl
  · -- All keys below are known, so the first unknown one is that of the changes above.
    have hbelow : ((given changes).map Prod.fst).find? (fun key => !settings.contains key) = none :=
      hknown
    have hsome : (given changes ++ given more).isEmpty = false := by
      rw [List.isEmpty_eq_false_iff]
      exact fun hnil => hgiven (List.append_eq_nil_iff.1 hnil).1
    rw [merge_overridden config hreserved hmore, merge_eq, hmore, hsome, List.map_append,
      List.find?_append, hbelow, Option.none_or, check_overlay haccepts]
    split
    · rename_i hreserved'
      cases hreserved'
    · split
      · rename_i hnil
        rw [List.isEmpty_iff.1 hnil]
        exact ((check_eq_ok_iff _ _).2 haccepts.toFields).symm
      · rfl

/-- **Two mergers are one**, with the same settings or the same error.  The name that stands
for the settings themselves is refused even without a value, so it has to have one. -/
theorem merge_merge {config merged : Config} {changes : Table Json}
    (h : config.merge changes = .ok merged) {more : Table Json}
    (hmore : more.has reservedKey = (given more).has reservedKey) :
    merged.merge more = config.merge (overridden changes more) := by
  cases hself : more.has reservedKey with
  | true =>
      have hboth : (overridden changes more).has reservedKey = true := by
        rw [has_overridden, ← hmore, hself, Bool.or_true]
      rw [merge_eq, merge_eq, if_pos hself, if_pos hboth]
  | false => exact merge_merge_unreserved h hself

/-! ## Settings that can be obtained -/

/-- The constraints on the settings, as values under their names. -/
structure Acceptable (fields : Table Json) : Prop where
  /-- A number of rounds, from zero on. -/
  miningRounds : ∃ n : Nat, fields.find? "mining_rounds" = some (.int n)
  /-- A number of rounds, from one on. -/
  maxRounds : ∃ n : Nat, 1 ≤ n ∧ fields.find? "max_rounds" = some (.int n)
  /-- A flag. -/
  untilConverged : ∃ b, fields.find? "until_converged" = some (.bool b)
  /-- A flag. -/
  nameFunctions : ∃ b, fields.find? "name_functions" = some (.bool b)
  /-- A text of name characters, one at least. -/
  separator : ∃ s, fields.find? "separator" = some (.text s) ∧ s ≠ "" ∧
    ∀ c ∈ s.toList, c.isAlphanum = true ∨ c = '$' ∨ c = '_'
  /-- The name of a goal. -/
  goal : fields.find? "source_type" = some (.text "script") ∨
    fields.find? "source_type" = some (.text "module")
  /-- A text of blanks. -/
  indent : ∃ s, fields.find? "indent" = some (.text s) ∧
    ∀ c ∈ s.toList, Text.isBlank c = true
  /-- A list of texts. -/
  stoplist : ∃ names : List String, fields.find? "stoplist" = some (.array (names.map .text))

/-- Settings that come from fields, or from a merger into such settings. -/
inductive Obtained : Config → Prop where
  /-- Settings given by fields. -/
  | ofFields {fields : Table Json} {config : Config} (h : Config.ofFields fields = .ok config) :
      Obtained config
  /-- Settings with others merged into them. -/
  | merge {config merged : Config} {changes : Table Json} (h : Obtained config)
      (hmerge : config.merge changes = .ok merged) : Obtained merged

/-- What the check accepts is acceptable. -/
theorem Accepts.acceptable {fields : Table Json} {config : Config} (h : Accepts fields config) :
    Acceptable config.toFields where
  miningRounds := ⟨config.miningRounds, rfl⟩
  maxRounds := ⟨config.maxRounds, h.maxRounds_pos, rfl⟩
  untilConverged := ⟨config.untilConverged, rfl⟩
  nameFunctions := ⟨config.nameFunctions, rfl⟩
  separator := by
    obtain ⟨-, hne, hchars⟩ := (checkSeparator_eq_ok_iff _ _).1 h.separator
    refine ⟨config.separator, rfl, hne, fun c hc => ?_⟩
    have hname := hchars c hc
    simp only [Text.isNameChar, Text.isNameStart, Bool.or_eq_true, beq_iff_eq] at hname
    rw [Char.isAlphanum, Bool.or_eq_true]
    tauto
  goal := by
    cases hgoal : config.goal with
    | script => exact .inl (by rw [Config.toFields, hgoal]; rfl)
    | module => exact .inr (by rw [Config.toFields, hgoal]; rfl)
  indent := ⟨config.indent, rfl, ((checkIndent_eq_ok_iff _ _).1 h.indent).2⟩
  stoplist := ⟨config.stoplist, rfl⟩

/-- Settings that can be obtained have been accepted. -/
theorem Obtained.accepted {config : Config} (h : Obtained config) :
    ∃ fields, Accepts fields config := by
  induction h with
  | @ofFields fields config h =>
      rw [Config.ofFields] at h
      split at h
      · exact ⟨_, (check_eq_ok_iff _ _).1 h⟩
      · cases h
  | merge _ hmerge ih =>
      obtain ⟨-, ⟨-, rfl⟩ | ⟨-, -, haccepts⟩⟩ := merge_eq_ok hmerge
      · exact ih
      · exact ⟨_, haccepts⟩

/-- **Settings stay valid under merging, and merging composes.**  Where a first merger
succeeds, a second one comes to the same settings or the same error as one merger of the
changes of both; only the name that stands for the settings themselves is refused without a
value, too. -/
theorem settings_valid_and_composed :
    (∀ config, Obtained config → Acceptable config.toFields) ∧
    ∀ (config merged : Config) (changes : Table Json), config.merge changes = .ok merged →
      ∀ more : Table Json,
        (more.has reservedKey = (given more).has reservedKey →
          merged.merge more = config.merge (overridden changes more)) ∧
        (more.has reservedKey = true → merged.merge more = .error (.trouble .reservedSetting)) := by
  refine ⟨fun config h => ?_, fun config merged changes h more => ⟨merge_merge h, fun hmore => ?_⟩⟩
  · obtain ⟨fields, haccepts⟩ := h.accepted
    exact haccepts.acceptable
  · rw [merge_eq, if_pos hmore]

/-- A stop list given as an object, kept, and then overridden by one that is refused, with a
null in between. -/
theorem settings_valid_and_composed_stoplist :
    ∃ merged, merge {} [("stoplist", .object [("self", .null)]), ("indent", .null)] = .ok merged ∧
      merged.stoplist = ["self"] ∧ Acceptable merged.toFields ∧
      merged.merge [("stoplist", .text "self"), ("separator", .null)] =
        .error (.config .badStoplist) := by
  have hdefault : ofFields [] = .ok {} := rfl
  have hmerged : merge {} [("stoplist", .object [("self", .null)]), ("indent", .null)] =
      .ok { stoplist := ["self"] } := rfl
  obtain ⟨hvalid, hcomposed⟩ := settings_valid_and_composed
  refine ⟨_, hmerged, rfl, hvalid _ (.merge (.ofFields hdefault) hmerged), ?_⟩
  rw [(hcomposed _ _ _ hmerged _).1 rfl]
  rfl

end Config
end NameRecovery
