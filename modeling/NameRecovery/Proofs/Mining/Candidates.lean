import NameRecovery.Proofs.Mining.Leftmost
import NameRecovery.Proofs.Table
import Mathlib.Data.List.Nodup

/-!
# Candidates and their new names

A candidate is a name that is declared just once in a text, and its value makes a label.
Its new name is composed of the label, the separator and the name.

* `names_nodup` — candidates have different names;
* `toLabel_value` — a value has a label, which is a plain name;
* `renames_eq` — there is one new name for each candidate;
* `mining_reads` — what the miner reads in a text, and what it makes of it.
-/

namespace NameRecovery.Mining

/-- Is it a plain name: a character that starts one, and then characters of names? -/
def IsPlainName (name : String) : Prop :=
  ∃ first rest, name.toList = first :: rest ∧ Text.isNameStart first = true ∧
    ∀ c ∈ rest, Text.isNameChar c = true

/-- A plain name with more characters of names behind it is a plain name. -/
theorem IsPlainName.append {name more : String} (h : IsPlainName name)
    (hmore : ∀ c ∈ more.toList, Text.isNameChar c = true) : IsPlainName (name ++ more) := by
  obtain ⟨first, rest, hname, hfirst, hrest⟩ := h
  refine ⟨first, rest ++ more.toList, ?_, hfirst, ?_⟩
  · rw [String.toList_append, hname, List.cons_append]
  · intro c hc
    rcases List.mem_append.1 hc with hc | hc
    · exact hrest c hc
    · exact hmore c hc

theorem IsPlainName.ne_empty {name : String} (h : IsPlainName name) : name ≠ "" := by
  rintro rfl
  obtain ⟨first, rest, hname, -⟩ := h
  cases hname

/-! ## Labels -/

theorem upperChar_isValueChar {c : Char} (h : isValueChar c = true) :
    ∀ d ∈ Text.upperChar c, isValueChar d = true := by
  have hall := forall_isValueChar (fun c => (Text.upperChar c).all isValueChar)
    (by decide +kernel) h
  exact List.all_eq_true.1 hall

/-- Joining the steps of a path leaves characters of paths. -/
theorem joinSteps_isValueChar {cs : List Char} (h : ∀ c ∈ cs, isValueChar c = true) :
    ∀ c ∈ joinSteps cs, isValueChar c = true := by
  induction cs using joinSteps.induct with
  | case1 rest ih =>
      have hline := h '\n' (by simp)
      exact absurd hline (by decide)
  | case2 d rest hline ih =>
      rw [joinSteps, if_neg hline]
      intro c hc
      rcases List.mem_append.1 hc with hc | hc
      · exact upperChar_isValueChar (h d (by simp)) c hc
      · exact ih (fun e he => h e (by simp [he])) c hc
  | case3 d rest hstep ih =>
      rw [joinSteps.eq_2 _ _ hstep]
      intro c hc
      rcases List.mem_cons.1 hc with rfl | hc
      · exact h c List.mem_cons_self
      · exact ih (fun e he => h e (List.mem_cons_of_mem _ he)) c hc
  | case4 => exact nofun

theorem isNameChar_of_ne_point {c : Char} (h : isValueChar c = true) (hpoint : c ≠ '.') :
    Text.isNameChar c = true := by
  simpa [isValueChar, hpoint] using h

/-- The label of a value is a plain name, which starts like the value. -/
theorem toLabel_value {value : String} (h : IsValue value.toList) :
    IsPlainName (toLabel value) := by
  have hchars : ∀ c ∈ joinSteps value.toList, isValueChar c = true :=
    joinSteps_isValueChar h.isValueChar
  obtain ⟨first, rest, hvalue, hfirst, hlength, -⟩ := h
  have hstart : first ≠ '.' := by
    rintro rfl
    exact absurd hfirst (by decide)
  have hjoin : joinSteps (first :: rest) = first :: joinSteps rest :=
    joinSteps.eq_2 _ _ (fun _ _ heq => absurd heq hstart)
  refine ⟨first, (joinSteps rest).filter (· ≠ '.'), ?_, hfirst, ?_⟩
  · rw [toLabel, String.toList_ofList, hvalue, hjoin,
      List.filter_cons_of_pos (by simpa using hstart)]
  · intro c hc
    obtain ⟨hmem, hpoint⟩ := List.mem_filter.1 hc
    apply isNameChar_of_ne_point
    · apply hchars
      rw [hvalue, hjoin]
      exact List.mem_cons_of_mem _ hmem
    · simpa using hpoint

/-! ## Candidates -/

section Candidates

variable {excluded : List String} {text : String}

/-- Every name and value that is read has its shape. -/
theorem assignment_shape {a : Assignment} (h : a ∈ assignments text) :
    IsShortName a.name.toList ∧ IsValue a.value.toList := by
  obtain ⟨found, -, hassigned, -⟩ := leftmost_assignments text
  rw [hassigned] at h
  obtain ⟨d, -, rfl⟩ := List.mem_map.1 h
  simp only [Declaration.assignment, String.toList_ofList]
  exact ⟨d.name_short, d.value_shape⟩

/-- A candidate is read once, and its value makes its label. -/
theorem candidate_read {c : Candidate} (h : c ∈ candidates excluded text) :
    ⟨c.name, c.value⟩ ∈ assignments text ∧ occurrences (assignments text) c.name = 1 ∧
      c.label = toLabel c.value := by
  obtain ⟨a, ha, rfl⟩ := List.mem_map.1 h
  obtain ⟨hread, hkept⟩ := List.mem_filter.1 ha
  simp only [Bool.and_eq_true, beq_iff_eq] at hkept
  exact ⟨hread, hkept.1, rfl⟩

/-- The names that are declared just once are different. -/
theorem names_nodup : ((candidates excluded text).map Candidate.name).Nodup := by
  apply List.nodup_iff_count_le_one.2
  intro name
  by_cases hname : name ∈ (candidates excluded text).map Candidate.name
  · obtain ⟨c, hc, rfl⟩ := List.mem_map.1 hname
    obtain ⟨-, honce, -⟩ := candidate_read hc
    -- The candidates come from a part of all that is read.
    have hcount : ((candidates excluded text).map Candidate.name).count c.name =
        ((assignments text).filter fun a =>
          occurrences (assignments text) a.name == 1 && isTelling excluded a.value).countP
            fun a => a.name == c.name := by
      simp only [candidates, candidatesAmong, List.map_map, List.count, List.countP_map]
      rfl
    rw [hcount, ← honce]
    exact List.Sublist.countP_le List.filter_sublist
  · rw [List.count_eq_zero_of_not_mem hname]
    exact Nat.zero_le 1

theorem label_plain {c : Candidate} (h : c ∈ candidates excluded text) : IsPlainName c.label := by
  obtain ⟨hread, -, hlabel⟩ := candidate_read h
  rw [hlabel]
  exact toLabel_value (assignment_shape hread).2

/-- The new name of a candidate. -/
def Candidate.newName (separator : String) (c : Candidate) : String :=
  c.label ++ separator ++ c.name

/-- There is one new name for each candidate, in order. -/
theorem renames_eq (separator : String) : renames separator (candidates excluded text) =
    (candidates excluded text).map fun c => (c.name, c.newName separator) := by
  have hlabels : (candidates excluded text).filter (fun c => c.label ≠ "") =
      candidates excluded text := by
    apply List.filter_eq_self.2
    intro c hc
    simpa using (label_plain hc).ne_empty
  rw [renames, hlabels]
  apply Table.ofList_of_nodup
  rw [List.map_map]
  exact names_nodup

theorem newName_plain {separator : String}
    (hseparator : ∀ c ∈ separator.toList, Text.isNameChar c = true) {c : Candidate}
    (h : c ∈ candidates excluded text) : IsPlainName (c.newName separator) :=
  ((label_plain h).append hseparator).append
    (assignment_shape (candidate_read h).1).1.isNameChar

end Candidates

/-! ## What the miner reads and makes of it -/

/-- What the miner reads in a text, and what it makes of that. -/
structure Reads (separator : String) (excluded : List String) (text : String) : Prop where
  /-- It reads the names and the values of the leftmost longest declarations, in order, and
  splitting the matched texts never fails and finds the same. -/
  assignments_eq : ∃ found, Leftmost text.toList found ∧
    (∀ other, Leftmost text.toList other → other = found) ∧
      assignments text = found.map Declaration.assignment ∧
        (Text.findAll matched? text.toList).mapM splitMatch? =
          some (found.map Declaration.assignment)
  /-- The candidates have different names. -/
  names_nodup : ((candidates excluded text).map Candidate.name).Nodup
  /-- Each of them is read just once. -/
  once : ∀ c ∈ candidates excluded text, ⟨c.name, c.value⟩ ∈ assignments text ∧
    occurrences (assignments text) c.name = 1
  /-- Each of them has a label and gets a new name. -/
  renames_eq : (∀ c ∈ candidates excluded text, c.label ≠ "") ∧
    renames separator (candidates excluded text) =
      (candidates excluded text).map fun c => (c.name, c.newName separator)
  /-- The new names are plain names. -/
  renames_plain : ∀ entry ∈ renames separator (candidates excluded text), IsPlainName entry.2

/-- **The miner reads its grammar**, in every text: the leftmost declarations that do not
overlap; and every candidate among them gets a plain name, if the separator is made of
characters of names. -/
theorem mining_reads {separator : String}
    (hseparator : ∀ c ∈ separator.toList, Text.isNameChar c = true) (excluded : List String)
    (text : String) : Reads separator excluded text where
  assignments_eq := by
    obtain ⟨found, hfound, hassigned, hsplit⟩ := leftmost_assignments text
    exact ⟨found, hfound, fun other hother => hother.unique hfound, hassigned, hsplit⟩
  names_nodup := names_nodup
  once := fun c hc => ⟨(candidate_read hc).1, (candidate_read hc).2.1⟩
  renames_eq := ⟨fun c hc => (label_plain hc).ne_empty, renames_eq separator⟩
  renames_plain := by
    intro entry hentry
    rw [renames_eq] at hentry
    obtain ⟨c, hc, rfl⟩ := List.mem_map.1 hentry
    exact newName_plain hseparator hc

/-- Of three names that are declared, one is declared again, and one with a function. -/
theorem mining_reads_window :
    Reads "$" defaultExcluded "let a = 'win..dow.', b = function, c = more, c = less" ∧
      renames "$" (candidates defaultExcluded
        "let a = 'win..dow.', b = function, c = more, c = less") = [("a", "window$a")] :=
  ⟨mining_reads (by simp; decide) _ _, by decide +kernel⟩

end NameRecovery.Mining
