import NameRecovery.Proofs.Mining.Shape

/-!
# The declarations of a text

The miner reads the declarations of a text from left to right, each as long as it can be
and the next one behind it, and reads off their names and values.

* `Leftmost` — the leftmost longest declarations of a text that do not overlap;
* `Leftmost.unique` — a text has only one list of them;
* `splitMatch?` — the name and the value, found again by splitting a matched text;
* `leftmost_assignments` — the miner reads all of them, and splitting finds the same.
-/

namespace NameRecovery.Mining

/-! ## Leftmost declarations -/

/-- The declarations of a text, read from left to right: a declaration starts at the first
place where there is one, it is the longest one there, and the next ones come behind it. -/
inductive Leftmost : List Char → List Declaration → Prop where
  /-- The text is over. -/
  | ended : Leftmost [] []
  /-- No declaration starts here. -/
  | skip {c : Char} {cs : List Char} {found : List Declaration}
      (hnone : ∀ (d : Declaration) (rest : List Char), c :: cs ≠ d.text ++ rest)
      (hrest : Leftmost cs found) : Leftmost (c :: cs) found
  /-- The longest declaration that starts here. -/
  | take {cs rest : List Char} {d : Declaration} {found : List Declaration}
      (hlongest : IsLongest cs d rest) (hrest : Leftmost rest found) : Leftmost cs (d :: found)

/-- A text has its leftmost declarations in one way only. -/
theorem Leftmost.unique {cs : List Char} {found found' : List Declaration}
    (h : Leftmost cs found) (h' : Leftmost cs found') : found = found' := by
  induction h generalizing found' with
  | ended =>
      cases h' with
      | ended => rfl
      | take hlongest _ =>
          have hnil := List.append_eq_nil_iff.1 hlongest.text_eq.symm
          exact absurd hnil.1 (Declaration.text_ne_nil _)
  | skip hnone _ ih =>
      cases h' with
      | skip _ hrest => exact ih hrest
      | take hlongest _ => exact absurd hlongest.text_eq (hnone _ _)
  | take hlongest _ ih =>
      cases h' with
      | ended =>
          have hnil := List.append_eq_nil_iff.1 hlongest.text_eq.symm
          exact absurd hnil.1 (Declaration.text_ne_nil _)
      | skip hnone _ => exact absurd hlongest.text_eq (hnone _ _)
      | take hlongest' hrest =>
          obtain ⟨rfl, rfl⟩ := hlongest.unique hlongest'
          rw [ih hrest]

/-! ## Splitting a matched text -/

/-- The text of the declaration at the start of a text. -/
def matched? : Text.Recogniser (List Char) := fun cs =>
  (declaration? cs).map fun found => (cs.take found.2, found.2)

/-- The name and the value in a matched text: without its quotes it is split at the equals
sign, and the last words of the first two pieces are taken. -/
def splitMatch? (matched : List Char) : Option Assignment := do
  let sides := Text.splitAtChar '=' (matched.filter fun c => !isQuote c)
  let name ← (Text.words (← sides[0]?)).getLast?
  let value ← (Text.words (← sides[1]?)).getLast?
  return ⟨String.ofList name, String.ofList value⟩

namespace Declaration

variable (d : Declaration)

theorem opening_plain : ∀ c ∈ d.opening, IsPlain c := by
  have hmem := d.opening_mem
  simp only [openings, List.map_cons, List.map_nil, List.mem_cons, List.not_mem_nil,
    or_false] at hmem
  unfold IsPlain
  rcases hmem with hmem | hmem | hmem | hmem <;> rw [hmem] <;> simp <;> decide

theorem opening_ne_nil : d.opening ≠ [] := by
  intro hnil
  have hmem := d.opening_mem
  rw [hnil] at hmem
  exact absurd hmem (by decide)

theorem name_plain : ∀ c ∈ d.name, IsPlain c :=
  fun c hc => isPlain_of_isNameChar (d.name_short.isNameChar c hc)

theorem value_plain : ∀ c ∈ d.value, IsPlain c :=
  fun c hc => isPlain_of_isValueChar (d.value_shape.isValueChar c hc)

/-- What stands before the equals sign. -/
def left : List Char :=
  d.opening ++ (d.gap ++ (d.name ++ d.before))

/-- What stands behind it and is no quote. -/
def right : List Char :=
  d.after ++ d.value

/-- Only the quote is removed. -/
theorem filter_text : d.text.filter (fun c => !isQuote c) = d.left ++ '=' :: d.right := by
  have hkeep : ∀ cs : List Char, (∀ c ∈ cs, isQuote c = false) →
      cs.filter (fun c => !isQuote c) = cs := by
    intro cs h
    apply List.filter_eq_self.2
    intro c hc
    simp [h c hc]
  have hblank : ∀ cs : List Char, (∀ c ∈ cs, Text.isBlank c = true) →
      cs.filter (fun c => !isQuote c) = cs := by
    intro cs h
    exact hkeep cs fun c hc => (isBlank_apart (h c hc)).2.1
  have hquote : d.quote.filter (fun c => !isQuote c) = [] := by
    have hquotes : ∀ quote ∈ [[], ['\''], ['"']],
        quote.filter (fun c => !isQuote c) = [] := by decide
    exact hquotes d.quote d.quote_mem
  have hequals : ('=' :: (d.after ++ (d.quote ++ d.value))).filter (fun c => !isQuote c) =
      '=' :: (d.after ++ (d.quote ++ d.value)).filter fun c => !isQuote c :=
    List.filter_cons_of_pos (by decide)
  simp only [text, tail, left, right, List.filter_append, hequals, hquote, List.nil_append,
    hkeep d.opening fun c hc => (d.opening_plain c hc).2.1,
    hkeep d.name fun c hc => (d.name_plain c hc).2.1,
    hkeep d.value fun c hc => (d.value_plain c hc).2.1,
    hblank d.gap d.gap_blank, hblank d.before d.before_blank, hblank d.after d.after_blank,
    List.append_assoc]

theorem split_text : Text.splitAtChar '=' (d.text.filter fun c => !isQuote c) =
    [d.left, d.right] := by
  have hleft : '=' ∉ d.left := by
    simp only [left, List.mem_append, not_or]
    exact ⟨fun h => (d.opening_plain _ h).2.2 rfl,
      fun h => (isBlank_apart (d.gap_blank _ h)).2.2 rfl,
      fun h => (d.name_plain _ h).2.2 rfl, fun h => (isBlank_apart (d.before_blank _ h)).2.2 rfl⟩
  have hright : '=' ∉ d.right := by
    simp only [right, List.mem_append, not_or]
    exact ⟨fun h => (isBlank_apart (d.after_blank _ h)).2.2 rfl,
      fun h => (d.value_plain _ h).2.2 rfl⟩
  rw [filter_text, Text.splitAtChar_append hleft, Text.splitAtChar_of_not_mem hright]

theorem words_left : Text.words d.left = [d.opening, d.name] := by
  have hgap : ∀ c ∈ (d.gap ++ (d.name ++ d.before)).head?, Text.isBlank c = true :=
    head_of_ne_nil d.gap_ne d.gap_blank
  have hbefore : ∀ c ∈ d.before.head?, Text.isBlank c = true :=
    fun c hc => d.before_blank c (List.mem_of_head? hc)
  have hend : Text.words d.before = [] := by
    simpa [Text.words] using @Text.words_blanks [] d.before d.before_blank
  rw [left, Text.words_word d.opening_ne_nil (fun c hc => (d.opening_plain c hc).1) hgap,
    Text.words_blanks d.gap_blank,
    Text.words_word d.name_short.ne_nil (fun c hc => (d.name_plain c hc).1) hbefore, hend]

theorem words_right : Text.words d.right = [d.value] := by
  have hword := @Text.words_word [] d.value d.value_shape.ne_nil
    (fun c hc => (d.value_plain c hc).1) (by simp)
  rw [List.append_nil] at hword
  rw [right, Text.words_blanks d.after_blank, hword]
  rfl

/-- **Splitting a matched text gives its name and its value**, and never fails. -/
theorem splitMatch?_text : splitMatch? d.text = some d.assignment := by
  simp only [splitMatch?, split_text, bind]
  simp [words_left, words_right, assignment]

end Declaration

/-! ## What the miner reads -/

/-- The miner reads the leftmost declarations, by induction on the length of the text. -/
theorem leftmost_found (cs : List Char) : ∃ found, Leftmost cs found ∧
    Text.findAll declaration? cs = found.map Declaration.assignment ∧
      Text.findAll matched? cs = found.map Declaration.text := by
  induction hlength : cs.length using Nat.strongRecOn generalizing cs with
  | ind n ih =>
      subst hlength
      cases cs with
      | nil => exact ⟨[], .ended, rfl, rfl⟩
      | cons c cs =>
          rcases declaration?_cases (c :: cs) with ⟨hread, hnone⟩ | ⟨d, rest, hread, hlongest⟩
          · obtain ⟨found, hfound, hassigned, htexts⟩ := ih cs.length (by simp) cs rfl
            refine ⟨found, .skip hnone hfound, ?_, ?_⟩
            · rw [Text.findAll_skip hread, hassigned]
            · rw [Text.findAll_skip (by rw [matched?, hread]; rfl), htexts]
          · have hpos := List.length_pos_iff.2 d.text_ne_nil
            have hlength := congrArg List.length hlongest.text_eq
            rw [List.length_append] at hlength
            obtain ⟨found, hfound, hassigned, htexts⟩ := ih rest.length (by omega) rest rfl
            have hbehind : cs.drop (d.text.length - 1) = rest := by
              have hdrop : (c :: cs).drop d.text.length = rest := by
                rw [hlongest.text_eq, List.drop_left]
              rwa [← Nat.succ_pred_eq_of_pos hpos, List.drop_succ_cons] at hdrop
            have htake : (c :: cs).take d.text.length = d.text := by
              rw [hlongest.text_eq, List.take_left]
            refine ⟨d :: found, .take hlongest hfound, ?_, ?_⟩
            · rw [Text.findAll_match hread, hbehind, hassigned, List.map_cons]
            · have hmatched : matched? (c :: cs) = some (d.text, d.text.length) := by
                rw [matched?, hread, Option.map_some, htake]
              rw [Text.findAll_match hmatched, hbehind, htexts, List.map_cons]

/-- The text has just one list of leftmost declarations. The miner reads their names and
values, and so does who splits the matched texts. -/
theorem leftmost_assignments (text : String) : ∃ found, Leftmost text.toList found ∧
    assignments text = found.map Declaration.assignment ∧
      (Text.findAll matched? text.toList).mapM splitMatch? =
        some (found.map Declaration.assignment) := by
  obtain ⟨found, hfound, hassigned, htexts⟩ := leftmost_found text.toList
  refine ⟨found, hfound, hassigned, ?_⟩
  rw [htexts]
  clear hfound hassigned htexts
  induction found with
  | nil => rfl
  | cons d found ih =>
      rw [List.map_cons, List.mapM_cons, Declaration.splitMatch?_text, ih]
      rfl

end NameRecovery.Mining
