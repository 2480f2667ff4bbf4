import NameRecovery.Text.Blank
import NameRecovery.Text.Scan
import Mathlib.Data.List.TakeWhile

/-!
# Runs and pieces of a text

What a scanner takes that reads on while the characters are of one sort, the pieces a text
falls into at a separating character or at blanks, and what a recogniser finds in it.

* `takeWhile_run`, `dropWhile_run` — a run of characters in front of another sort;
* `run_unique`, `upTo_unique` — a text has only one such run at its start;
* `splitAtChar_intercalate` — pieces joined with the separator fall apart again;
* `splitAtChar_flatMap` — so do pieces that each end with it, and leave nothing behind;
* `words_word` — the first word of a text;
* `findAll_match`, `replaceAll_match` — a recogniser goes on behind what it has found.
-/

namespace NameRecovery.Text

section Run

variable {p : Char → Bool} {run rest : List Char}

theorem takeWhile_run (hrun : ∀ c ∈ run, p c) (hrest : ∀ c ∈ rest.head?, p c = false) :
    (run ++ rest).takeWhile p = run := by
  rw [List.takeWhile_append_of_pos hrun]
  cases rest with
  | nil => simp
  | cons c rest => simp [hrest c rfl]

theorem dropWhile_run (hrun : ∀ c ∈ run, p c) (hrest : ∀ c ∈ rest.head?, p c = false) :
    (run ++ rest).dropWhile p = rest := by
  rw [List.dropWhile_append_of_pos hrun]
  cases rest with
  | nil => simp
  | cons c rest => simp [hrest c rfl]

/-- What is left behind a run is of another sort. -/
theorem head_dropWhile (p : Char → Bool) (cs : List Char) :
    ∀ c ∈ (cs.dropWhile p).head?, p c = false := by
  intro c hc
  have hnot := List.head?_dropWhile_not p cs
  rw [hc] at hnot
  exact hnot

/-- A text falls in one way only into a run and what is of another sort. -/
theorem run_unique {run' rest' : List Char} (hrun : ∀ c ∈ run, p c)
    (hrest : ∀ c ∈ rest.head?, p c = false) (hrun' : ∀ c ∈ run', p c)
    (hrest' : ∀ c ∈ rest'.head?, p c = false) (h : run ++ rest = run' ++ rest') :
    run = run' ∧ rest = rest' := by
  have hsame : run = run' := by
    rw [← takeWhile_run hrun hrest, h, takeWhile_run hrun' hrest']
  subst hsame
  exact ⟨rfl, List.append_cancel_left h⟩

/-- Only one text that goes up to the first place of a character starts a text. -/
theorem upTo_unique {stop : Char} {front front' rest : List Char} (hfront : stop ∉ front)
    (hfront' : stop ∉ front') (h : front ++ [stop] <+: front' ++ stop :: rest) :
    front = front' := by
  obtain ⟨rest', hrest'⟩ := h
  rw [List.append_assoc, List.singleton_append] at hrest'
  have hstop : ∀ rest : List Char, ∀ c ∈ (stop :: rest).head?, (c != stop) = false := by simp
  refine (run_unique (p := (· != stop)) ?_ (hstop rest') ?_ (hstop rest) hrest').1
  · exact fun c hc => bne_iff_ne.2 fun heq => hfront (heq ▸ hc)
  · exact fun c hc => bne_iff_ne.2 fun heq => hfront' (heq ▸ hc)

end Run

section Split

variable {sep : Char}

theorem splitAtChar_of_not_mem {cs : List Char} (h : sep ∉ cs) : splitAtChar sep cs = [cs] := by
  induction cs with
  | nil => rfl
  | cons c cs ih =>
      have hc : c ≠ sep := (List.ne_of_not_mem_cons h).symm
      rw [splitAtChar, if_neg hc, ih (List.not_mem_of_not_mem_cons h)]

theorem splitAtChar_append {piece : List Char} (h : sep ∉ piece) (rest : List Char) :
    splitAtChar sep (piece ++ sep :: rest) = piece :: splitAtChar sep rest := by
  induction piece with
  | nil => rw [List.nil_append, splitAtChar, if_pos rfl]
  | cons c piece ih =>
      have hc : c ≠ sep := (List.ne_of_not_mem_cons h).symm
      rw [List.cons_append, splitAtChar, if_neg hc, ih (List.not_mem_of_not_mem_cons h)]

/-- Pieces joined with the separator fall apart again. -/
theorem splitAtChar_intercalate {pieces : List (List Char)} (hne : pieces ≠ [])
    (h : ∀ piece ∈ pieces, sep ∉ piece) :
    splitAtChar sep (List.intercalate [sep] pieces) = pieces := by
  induction pieces with
  | nil => exact absurd rfl hne
  | cons piece rest ih =>
      have hpiece := h piece List.mem_cons_self
      cases rest with
      | nil =>
          rw [List.intercalate_singleton]
          exact splitAtChar_of_not_mem hpiece
      | cons next rest =>
          rw [List.intercalate_cons_cons, List.append_assoc, List.singleton_append,
            splitAtChar_append hpiece, ih (by simp) fun p hp => h p (List.mem_cons_of_mem _ hp)]

/-- Pieces that each end with the separator fall apart, and leave nothing behind the last. -/
theorem splitAtChar_flatMap {pieces : List (List Char)} (h : ∀ piece ∈ pieces, sep ∉ piece) :
    splitAtChar sep (pieces.flatMap fun piece => piece ++ [sep]) = pieces ++ [[]] := by
  induction pieces with
  | nil => rfl
  | cons piece rest ih =>
      rw [List.flatMap_cons, List.append_assoc, List.singleton_append,
        splitAtChar_append (h piece List.mem_cons_self),
        ih fun p hp => h p (List.mem_cons_of_mem _ hp), List.cons_append]

end Split

section Words

variable {rest : List Char}

theorem words_blanks {blanks : List Char} (h : ∀ c ∈ blanks, isBlank c = true) :
    words (blanks ++ rest) = words rest := by
  induction blanks with
  | nil => rfl
  | cons c blanks ih =>
      rw [List.cons_append, words.eq_def]
      simp only [h c List.mem_cons_self, if_true]
      exact ih fun d hd => h d (List.mem_cons_of_mem _ hd)

theorem words_word {word : List Char} (hne : word ≠ []) (hword : ∀ c ∈ word, isBlank c = false)
    (hrest : ∀ c ∈ rest.head?, isBlank c = true) : words (word ++ rest) = word :: words rest := by
  induction word with
  | nil => exact absurd rfl hne
  | cons c word ih =>
      have hc : isBlank c = false := hword c List.mem_cons_self
      cases word with
      | nil =>
          rw [List.singleton_append, words.eq_def]
          cases rest with
          | nil =>
              have hnone : words [] = [] := rfl
              simp [hc, hnone]
          | cons d rest => simp [hc, hrest d rfl]
      | cons d word =>
          have hd : isBlank d = false := hword d (by simp)
          have hrec := ih (by simp) fun e he => hword e (List.mem_cons_of_mem _ he)
          rw [List.cons_append] at hrec
          rw [List.cons_append, List.cons_append, words.eq_def]
          simp [hc, hd, hrec]

end Words

section Matches

variable {α : Type} {recogniser : Recogniser α} {c : Char} {cs : List Char}

theorem dropExact_eq_some_iff {part rest : List Char} :
    dropExact part cs = some rest ↔ cs = part ++ rest := by
  induction part generalizing cs with
  | nil => simp [dropExact, eq_comm]
  | cons p part ih =>
      cases cs with
      | nil => simp [dropExact]
      | cons c cs =>
          rw [dropExact, List.cons_append, List.cons.injEq]
          by_cases h : p = c
          · simp [h, ih]
          · simp [h, Ne.symm h]

theorem piecesFrom_skip (skip : Nat) :
    piecesFrom recogniser skip cs = piecesFrom recogniser 0 (cs.drop skip) := by
  induction skip generalizing cs with
  | zero => rfl
  | succ skip ih =>
      cases cs with
      | nil => rfl
      | cons c cs => rw [piecesFrom, ih, List.drop_succ_cons]

theorem findAll_skip (h : recogniser (c :: cs) = none) :
    findAll recogniser (c :: cs) = findAll recogniser cs := by
  simp [findAll, pieces, piecesFrom, h, List.filterMap_cons]

/-- Behind a match the search goes on. -/
theorem findAll_match {found : α} {size : Nat} (h : recogniser (c :: cs) = some (found, size)) :
    findAll recogniser (c :: cs) = found :: findAll recogniser (cs.drop (size - 1)) := by
  simp [findAll, pieces, piecesFrom, h, ← piecesFrom_skip]

variable {replacement : α → List Char}

theorem replaceAll_skip (h : recogniser (c :: cs) = none) :
    replaceAll recogniser replacement (c :: cs) = c :: replaceAll recogniser replacement cs := by
  simp [replaceAll, pieces, piecesFrom, h]

theorem replaceAll_match {found : α} {size : Nat} (h : recogniser (c :: cs) = some (found, size)) :
    replaceAll recogniser replacement (c :: cs) =
      replacement found ++ replaceAll recogniser replacement (cs.drop (size - 1)) := by
  simp [replaceAll, pieces, piecesFrom, h, ← piecesFrom_skip]

end Matches

end NameRecovery.Text
