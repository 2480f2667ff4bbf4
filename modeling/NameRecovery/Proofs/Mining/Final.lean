import NameRecovery.Proofs.Labels
import NameRecovery.Proofs.Mining.Candidates
import NameRecovery.Proofs.Rounds

/-!
# Labelled names become final

Mining looks for names of one to three characters and a number.  A label has at least two
characters and the separator comes behind it, so that a labelled name seldom looks like
that, and one with two labels never does.

* `isShortName_composed_iff` — when a labelled name still has the shape of a mined one;
* `renamingsLeft_composed` — every renaming leaves fewer to come;
* `timesRenamed_le` — so does every sequence of rounds, whatever texts they work on;
* `Work.mine_minedRounds` — the rounds of a pass are such a sequence, even if it fails;
* `labels_become_final` — labelled names are not short, and no name is renamed three times.
-/

namespace NameRecovery

namespace Mining

/-! ## Labels have two characters -/

/-- The label of a value that says something starts with its first two characters. -/
theorem two_le_length_toLabel {excluded : List String} {value : String}
    (hvalue : IsValue value.toList) (htelling : isTelling excluded value = true) :
    2 ≤ (toLabel value).length := by
  obtain ⟨first, rest, hlist, hfirst, hlength, -⟩ := hvalue
  cases rest with
  | nil => exact absurd hlength (by simp)
  | cons second rest =>
      have hstart : first ≠ '.' := by
        rintro rfl
        exact absurd hfirst (by decide)
      have hsecond : second ≠ '.' := by
        rintro rfl
        simp [isTelling, hlist] at htelling
      have hjoin : joinSteps value.toList = first :: second :: joinSteps rest := by
        rw [hlist, joinSteps.eq_2 _ _ fun _ _ heq => absurd heq hstart,
          joinSteps.eq_2 _ _ fun _ _ heq => absurd heq hsecond]
      rw [← String.length_toList, toLabel, String.toList_ofList, hjoin,
        List.filter_cons_of_pos (by simpa using hstart),
        List.filter_cons_of_pos (by simpa using hsecond)]
      simp

theorem two_le_length_label {excluded : List String} {text : String} {c : Candidate}
    (h : c ∈ candidates excluded text) : 2 ≤ (toLabel c.value).length := by
  obtain ⟨a, ha, rfl⟩ := List.mem_map.1 h
  obtain ⟨hread, hkept⟩ := List.mem_filter.1 ha
  rw [Bool.and_eq_true] at hkept
  exact two_le_length_toLabel (assignment_shape hread).2 hkept.2

/-! ## The shape of labelled names -/

section Shape

variable {label name : String}

/-- The separator behind a label is part of what has to be a number. -/
theorem isNumberedName_of_dollar {size : Nat} {front rest : List Char}
    (h : size ≤ front.length) : Text.isNumberedName size (front ++ '$' :: rest) = false := by
  have hmem : '$' ∈ (front ++ '$' :: rest).drop size := by
    rw [List.drop_append_of_le_length h]
    simp
  have hnumber : ((front ++ '$' :: rest).drop size).all Text.isSuffixChar = false :=
    List.all_eq_false.2 ⟨'$', hmem, by decide⟩
  rw [Text.isNumberedName, hnumber, Bool.and_false]

/-- A labelled name is not short. -/
theorem isShort_composed (hlabel : 2 ≤ label.length) (hname : name.toList ≠ []) :
    isShort (composed label name) = false := by
  rw [← String.length_toList] at hlabel
  have hdrop : (label.toList ++ '$' :: name.toList).dropLast =
      label.toList ++ '$' :: name.toList.dropLast := by
    rw [List.dropLast_append_of_ne_nil (List.cons_ne_nil _ _), List.dropLast_cons_of_ne_nil hname]
  simp only [isShort, toList_composed]
  split
  · rw [hdrop]
    exact isNumberedName_of_dollar hlabel
  · exact isNumberedName_of_dollar hlabel

theorem not_isShortName_composed (hlabel : 3 ≤ label.length) :
    ¬ IsShortName (composed label name).toList := by
  rw [← isNumberedName_iff, toList_composed, Bool.not_eq_true]
  exact isNumberedName_of_dollar (by rwa [String.length_toList])

/-- Behind a label of two characters and the separator only a number may come. -/
theorem number_of_isShortName_composed (hlabel : 2 ≤ label.length)
    (h : IsShortName (composed label name).toList) :
    label.length = 2 ∧ ∀ c ∈ name.toList, Text.isSuffixChar c = true := by
  have htwo : label.length = 2 := by
    by_contra hne
    exact not_isShortName_composed (by omega) h
  refine ⟨htwo, ?_⟩
  rw [← isNumberedName_iff, toList_composed] at h
  have hdrop : (label.toList ++ '$' :: name.toList).drop 3 = name.toList := by
    have hlength : label.toList.length = 2 := by rw [String.length_toList, htwo]
    rw [List.drop_append, hlength, List.drop_eq_nil_of_le (by omega)]
    rfl
  rw [Text.isNumberedName, hdrop, Bool.and_eq_true] at h
  exact List.all_eq_true.1 h.2

theorem isShortName_composed_iff (hplain : IsPlainName label) (hlabel : 2 ≤ label.length) :
    IsShortName (composed label name).toList ↔
      label.length = 2 ∧ ∀ c ∈ name.toList, Text.isSuffixChar c = true := by
  refine ⟨number_of_isShortName_composed hlabel, ?_⟩
  rintro ⟨htwo, hnumber⟩
  obtain ⟨first, rest, hlist, hfirst, hrest⟩ := hplain
  refine ⟨label.toList ++ ['$'], name.toList, ?_, ?_, ?_, ?_, hnumber⟩
  · simp [toList_composed]
  · simp
  · simp [String.length_toList, htwo]
  · intro c hc
    rw [hlist] at hc
    simp only [List.cons_append, List.mem_cons, List.mem_append, List.not_mem_nil, or_false] at hc
    rcases hc with rfl | hc | rfl
    · exact isNameChar_of_isNameStart hfirst
    · exact hrest c hc
    · decide

/-- A name with two labels is never mined. -/
theorem not_isShortName_twice {second : String} (hlabel : 2 ≤ label.length) :
    ¬ IsShortName (composed second (composed label name)).toList := by
  rw [← composed_composed]
  apply not_isShortName_composed
  rw [← String.length_toList, toList_composed, List.length_append, List.length_cons,
    String.length_toList, String.length_toList]
  omega

end Shape

end Mining

open Mining

/-! ## Renamings to come -/

/-- How often mining can still rename a name: twice if it is a number, once if it is another name
of the mined shape. -/
def renamingsLeft (name : String) : Nat :=
  if Text.isNumberedName 3 name.toList then
    if name.toList.all Text.isSuffixChar then 2 else 1
  else 0

theorem renamingsLeft_le_two (name : String) : renamingsLeft name ≤ 2 := by
  rw [renamingsLeft]
  split
  · split <;> omega
  · omega

/-- **Every renaming leaves fewer to come.** -/
theorem renamingsLeft_composed {label name : String} (hlabel : 2 ≤ label.length)
    (hname : IsShortName name.toList) :
    renamingsLeft (composed label name) < renamingsLeft name := by
  have hmined : Text.isNumberedName 3 name.toList = true := isNumberedName_iff.2 hname
  by_cases hshape : IsShortName (composed label name).toList
  · obtain ⟨-, hnumber⟩ := number_of_isShortName_composed hlabel hshape
    have hdollar : (composed label name).toList.all Text.isSuffixChar = false :=
      List.all_eq_false.2 ⟨'$', by simp [toList_composed], by decide⟩
    have hall : name.toList.all Text.isSuffixChar = true := List.all_eq_true.2 hnumber
    simp [renamingsLeft, isNumberedName_iff.2 hshape, hdollar, hmined, hall]
  · have hnone : Text.isNumberedName 3 (composed label name).toList = false := by
      rw [← Bool.not_eq_true, isNumberedName_iff]
      exact hshape
    rw [renamingsLeft, renamingsLeft, hnone, if_neg Bool.false_ne_true, if_pos hmined]
    split <;> omega

/-- Is the table one that a round of mining renames after? -/
def IsMined (table : Table String) : Prop :=
  ∃ text declared, table = minedTable "$" text declared

/-- A mined table gives names of the mined shape a label of two characters or more. -/
theorem IsMined.entry {table : Table String} (h : IsMined table) {name new : String}
    (hfind : table.find? name = some new) :
    IsShortName name.toList ∧ ∃ label, new = composed label name ∧ 2 ≤ label.length := by
  obtain ⟨text, declared, rfl⟩ := h
  have hmem := (List.mem_filter.1 (Table.mem_of_find? hfind)).1
  rw [renames_eq] at hmem
  obtain ⟨c, hc, heq⟩ := List.mem_map.1 hmem
  obtain ⟨rfl, rfl⟩ := Prod.mk.inj heq
  obtain ⟨hread, -, hlabel⟩ := candidate_read hc
  refine ⟨(assignment_shape hread).1, c.label, rfl, ?_⟩
  rw [hlabel]
  exact two_le_length_label hc

/-- How often a name is renamed after tables one after the other, under the names it gets. -/
def timesRenamed : List (Table String) → String → Nat
  | [], _ => 0
  | table :: rest, name => (if table.has name then 1 else 0) + timesRenamed rest (table.spell name)

/-- However many rounds there are, and whatever texts they work on, they do not rename a name more
often than it can be renamed. -/
theorem timesRenamed_le {tables : List (Table String)} (h : ∀ table ∈ tables, IsMined table)
    (name : String) : timesRenamed tables name ≤ renamingsLeft name := by
  induction tables generalizing name with
  | nil => exact Nat.zero_le _
  | cons table rest ih =>
      have hrest := ih (fun other hother => h other (List.mem_cons_of_mem _ hother))
        (table.spell name)
      rw [timesRenamed]
      cases hfind : table.find? name with
      | none =>
          have hspell : table.spell name = name := by rw [Table.spell, hfind]; rfl
          rw [hspell] at hrest ⊢
          simpa [Table.has, hfind] using hrest
      | some new =>
          obtain ⟨hname, label, rfl, hlabel⟩ := (h table List.mem_cons_self).entry hfind
          have hspell : table.spell name = composed label name := by rw [Table.spell, hfind]; rfl
          have hfewer := renamingsLeft_composed hlabel hname
          rw [hspell] at hrest ⊢
          simp only [Table.has, hfind, Option.isSome_some, if_true]
          omega

/-! ## The rounds of a pass -/

namespace Work

/-- Are labels and names separated by the dollar sign, and all rounds so far renamed after mined
tables? -/
def MinedRounds (ctx : Context) : Prop :=
  ctx.config.separator = "$" ∧ ∀ round ∈ ctx.report.rounds, IsMined round.renames

theorem parse_minedRounds (text : String) : Keeps MinedRounds (parse text) fun _ => True := by
  unfold parse
  refine .skip .get fun ctx => .skip (.ofExcept fun _ _ => trivial) fun t => ?_
  exact .skip (.modify fun _ h => h) fun _ => .pure trivial

theorem render_minedRounds : Keeps MinedRounds render fun _ => True := by
  unfold render
  refine .bind .get fun ctx hctx => ?_
  split
  · exact .fail _
  · refine .skip (.ofExcept fun _ _ => trivial) fun text => ?_
    exact .skip (.set hctx) fun _ => .pure trivial

theorem ensureTree_minedRounds : Keeps MinedRounds ensureTree fun _ => True := by
  unfold ensureTree
  refine .skip .get fun ctx => ?_
  split
  · exact .pure trivial
  · refine .skip (parse_minedRounds _) fun t => .skip (.modify fun _ h => h) fun _ => ?_
    exact .skip render_minedRounds fun _ => .pure trivial

theorem renameTree_minedRounds (table : Table String) (t : Tree) :
    Keeps MinedRounds (renameTree table t) fun _ => True := by
  unfold renameTree
  refine .skip (.modify fun _ h => h) fun _ => .skip (.ofExcept fun _ _ => trivial) fun _ => ?_
  exact .skip (.modify fun _ h => h) fun _ => .pure trivial

/-- One more round renames after a mined table. -/
theorem mineRound_minedRounds (index : Nat) :
    Keeps MinedRounds (mineRound index) fun _ => True := by
  unfold mineRound
  refine .bind .get fun ctx hctx => .skip (.modify fun _ h => h) fun _ => ?_
  refine .skip (parse_minedRounds _) fun t => .skip (.ofExcept fun _ _ => trivial) fun declared => ?_
  refine .skip (renameTree_minedRounds _ _) fun _ => .skip render_minedRounds fun _ => ?_
  refine .skip (.modify fun ctx' h => ⟨h.1, fun round hround => ?_⟩) fun _ => ?_
  · rcases List.mem_append.1 hround with hround | hround
    · exact h.2 round hround
    · obtain rfl := List.mem_singleton.1 hround
      refine ⟨ctx.text, declared, ?_⟩
      rw [hctx.1]
      rfl
  · exact .skip (.modify fun _ h => h) fun _ => .pure trivial

theorem mineRounds_minedRounds (left index : Nat) :
    Keeps MinedRounds (mineRounds left index) fun _ => True := by
  induction left generalizing index with
  | zero =>
      unfold mineRounds
      exact .skip .get fun ctx => .ite (fun _ => .modify fun _ h => h) fun _ => .pure trivial
  | succ left ih =>
      unfold mineRounds
      refine .skip (mineRound_minedRounds index) fun renamed => .skip .get fun ctx => ?_
      exact .ite (fun _ => .modify fun _ h => h) fun _ => ih (index + 1)

/-- All rounds of a pass rename after mined tables, whether it comes to its end or not. -/
theorem mine_minedRounds : Keeps MinedRounds mine fun _ => True := by
  unfold mine
  refine .skip ensureTree_minedRounds fun _ => .skip .get fun ctx => ?_
  exact mineRounds_minedRounds _ _

end Work

/-! ## Labelled names are final -/

/-- The tables that the rounds in a report rename after. -/
def Report.minedTables (report : Report) : List (Table String) :=
  report.rounds.map MiningRound.renames

/-- **Labelled names become final.**  The new name of a candidate is not short, it has the shape
of a mined name only behind a label of two characters and in front of a number, and never
with one more label.  So no name is renamed more than twice by the rounds of a mining pass. -/
theorem labels_become_final (excluded : List String) (text : String) :
    (∀ c ∈ candidates excluded text,
      isShort (composed (toLabel c.value) c.name) = false ∧
      (IsShortName (composed (toLabel c.value) c.name).toList ↔
        (toLabel c.value).length = 2 ∧ ∀ d ∈ c.name.toList, Text.isSuffixChar d = true) ∧
      ∀ label, ¬ IsShortName (composed label (composed (toLabel c.value) c.name)).toList) ∧
    ∀ ctx : Context, ctx.config.separator = "$" → ctx.report.rounds = [] →
      ∀ name, timesRenamed (Work.mine.run ctx).2.report.minedTables name ≤ 2 := by
  refine ⟨fun c hc => ?_, fun ctx hsep hfresh name => ?_⟩
  · obtain ⟨hread, -, -⟩ := candidate_read hc
    have hshape := assignment_shape hread
    have hlabel := two_le_length_label hc
    exact ⟨isShort_composed hlabel hshape.1.ne_nil,
      isShortName_composed_iff (toLabel_value hshape.2) hlabel,
      fun label => not_isShortName_twice hlabel⟩
  · have hstart : Work.MinedRounds ctx := ⟨hsep, by simp [hfresh]⟩
    obtain ⟨hmined, -⟩ := Work.mine_minedRounds ctx hstart
    refine (timesRenamed_le ?_ name).trans (renamingsLeft_le_two name)
    intro table htable
    obtain ⟨round, hround, rfl⟩ := List.mem_map.1 htable
    exact hmined.2 round hround

/-- A program with a name that is a number, declared with a value whose label has two
characters. -/
def numberContext : Context where
  source := "var _ = 'ab..'"

set_option maxRecDepth 100000 in
/-- Such a name is renamed twice. -/
theorem labels_become_final_number :
    ⟨"_", "ab", "ab.."⟩ ∈ candidates defaultExcluded "var _ = 'ab..'" ∧
      isShort "ab$_" = false ∧ IsShortName "ab$_".toList ∧ ¬ IsShortName "ab$ab$_".toList ∧
      timesRenamed (Work.mine.run numberContext).2.report.minedTables "_" = 2 ∧
      ∀ name, timesRenamed (Work.mine.run numberContext).2.report.minedTables name ≤ 2 := by
  have hfinal := labels_become_final defaultExcluded "var _ = 'ab..'"
  have hc : ⟨"_", "ab", "ab.."⟩ ∈ candidates defaultExcluded "var _ = 'ab..'" := by
    decide +kernel
  have hlabel : toLabel "ab.." = "ab" := by decide +kernel
  have htwice : timesRenamed (Work.mine.run numberContext).2.report.minedTables "_" = 2 := by
    decide +kernel
  obtain ⟨hlong, hshape, hlast⟩ := hfinal.1 _ hc
  rw [hlabel] at hlong hshape hlast
  exact ⟨hc, hlong, hshape.2 ⟨rfl, by simp [Text.isSuffixChar]⟩, hlast "ab", htwice,
    hfinal.2 numberContext rfl rfl⟩

end NameRecovery
