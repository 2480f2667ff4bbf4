import NameRecovery.Profile
import Mathlib.Data.List.Infix
import Mathlib.Data.List.MinMax
import Mathlib.Data.Prod.Lex

/-!
# The choice of labels

The labels of a short name are chosen in four steps, each of which keeps some of the
labels that the step before has kept.  Together they keep the labels with the greatest
merit, where merits are compared point by point.

* `best` — the items with the greatest measure;
* `greatest_eq_best`, `prefer_eq_best` — every step keeps the best items by a measure;
* `best_best` — two steps keep the best ones by both measures, the first one first;
* `selectLabelsBy_eq_best` — all steps together;
* `labels_have_greatest_merit` — what is chosen from a row, in whatever order it stands.
-/

namespace NameRecovery

/-! ## The best items -/

section Best

variable {α β γ : Type} [LinearOrder β] [LinearOrder γ]

/-- The items with the greatest measure, in order. -/
def best (measure : α → β) (items : List α) : List α :=
  items.filter fun item => ∀ other ∈ items, measure other ≤ measure item

theorem mem_best {measure : α → β} {items : List α} {item : α} :
    item ∈ best measure items ↔ item ∈ items ∧ ∀ other ∈ items, measure other ≤ measure item := by
  simp [best]

theorem best_nil (measure : α → β) : best measure [] = [] := rfl

/-- Among some items there is a best one. -/
theorem best_ne_nil (measure : α → β) {items : List α} (h : items ≠ []) :
    best measure items ≠ [] := by
  obtain ⟨item, hitem⟩ := Option.ne_none_iff_exists'.1 (mt (List.argmax_eq_none (f := measure)).1 h)
  have hgreatest : ∀ other ∈ items, measure other ≤ measure item :=
    fun other hother => List.le_of_mem_argmax hother hitem
  exact List.ne_nil_of_mem (mem_best.2 ⟨List.argmax_mem hitem, hgreatest⟩)

/-- The order of the items does not matter to which of them are best. -/
theorem best_perm (measure : α → β) {items items' : List α} (h : items.Perm items') :
    (best measure items).Perm (best measure items') := by
  have hsame : ∀ item, (∀ other ∈ items, measure other ≤ measure item) ↔
      ∀ other ∈ items', measure other ≤ measure item := fun item => by
    simp only [h.mem_iff]
  simp only [best, hsame]
  exact h.filter _

omit [LinearOrder γ] in
theorem best_map (f : γ → α) (measure : α → β) (items : List γ) :
    best measure (items.map f) = (best (fun item => measure (f item)) items).map f := by
  simp [best, List.filter_map, Function.comp_def]

/-- Measures that compare alike have the same best items. -/
theorem best_congr {measure : α → β} {measure' : α → γ} {items : List α}
    (h : ∀ item other, measure other ≤ measure item ↔ measure' other ≤ measure' item) :
    best measure items = best measure' items := by
  simp only [best, h]

/-- The best by the second measure among the best by the first one are the best by both,
the first one compared first. -/
theorem best_best (first : α → β) (second : α → γ) (items : List α) :
    best second (best first items) = best (fun item => toLex (first item, second item)) items := by
  have hfilter : best second (best first items) = items.filter fun item =>
      decide (∀ other ∈ best first items, second other ≤ second item) &&
        decide (∀ other ∈ items, first other ≤ first item) := List.filter_filter
  rw [hfilter]
  refine List.filter_congr fun item hitem => ?_
  rw [← Bool.decide_and, decide_eq_decide]
  simp only [mem_best, Prod.Lex.toLex_le_toLex]
  constructor
  · rintro ⟨hsecond, hfirst⟩ other hother
    rcases (hfirst other hother).lt_or_eq with hlt | heq
    · exact .inl hlt
    · -- An item that is as good by the first measure is among the best by it, too.
      exact .inr ⟨heq, hsecond other ⟨hother, heq ▸ hfirst⟩⟩
  · intro hboth
    have hfirst : ∀ other ∈ items, first other ≤ first item := by
      intro other hother
      rcases hboth other hother with hlt | ⟨heq, -⟩
      · exact hlt.le
      · exact heq.le
    refine ⟨?_, hfirst⟩
    rintro other ⟨hother, hbest⟩
    rcases hboth other hother with hlt | ⟨-, hle⟩
    · exact absurd (hbest item hitem) (not_le.2 hlt)
    · exact hle

end Best

/-! ## The steps -/

section Steps

variable {α : Type}

theorem greatest_eq_best (measure : α → Int) (items : List α) :
    greatest measure items = best measure items := by
  simp only [greatest, best]
  refine List.filter_congr fun item _ => ?_
  rw [Bool.eq_iff_iff]
  simp

/-- To prefer what passes a test is to measure by the test. -/
theorem prefer_eq_best (test : α → Bool) (items : List α) :
    prefer test items = best test items := by
  unfold prefer
  split
  · rename_i hany
    obtain ⟨passed, hpassed, htest⟩ := List.any_eq_true.1 hany
    refine List.filter_congr fun item _ => ?_
    rw [Bool.eq_iff_iff, decide_eq_true_iff]
    constructor
    · intro hitem other _
      rw [hitem]
      exact Bool.le_true _
    · intro hgreatest
      exact Bool.le_iff_imp.1 (hgreatest passed hpassed) htest
  · rename_i hnone
    have hfalse : ∀ item ∈ items, test item = false := by simpa using hnone
    symm
    refine List.filter_eq_self.2 fun item _ => ?_
    rw [decide_eq_true_iff]
    intro other hother
    rw [hfalse other hother]
    exact Bool.false_le _

end Steps

/-- Standing somewhere in a text is being a part of it. -/
theorem Text.occursIn_iff {part cs : List Char} :
    Text.occursIn part cs = true ↔ part <:+: cs := by
  induction cs with
  | nil => simp [Text.occursIn]
  | cons c cs ih =>
      rw [Text.occursIn, Bool.or_eq_true, List.isPrefixOf_iff_prefix, ih, List.infix_cons_iff]

/-! ## Labels -/

/-- What a label is chosen for: its count, then whether lower-casing changes it, then its
length, and then whether it is free of the separator. -/
def merit (lower : String → String) (separator : String) (entry : String × Int) :
    Int ×ₗ Bool ×ₗ Nat ×ₗ Bool :=
  toLex (entry.2, toLex (decide (entry.1 ≠ lower entry.1), toLex (entry.1.length,
    decide ¬ separator.toList <:+: entry.1.toList)))

section Labels

variable (lower : String → String) (separator : String)

/-- The four steps keep the labels with the greatest merit. -/
theorem selectLabelsBy_eq_best (row : Row) :
    selectLabelsBy lower separator row = (best (merit lower separator) row).map Prod.fst := by
  have hcapital : ∀ label : String, (label != lower label) = decide (label ≠ lower label) :=
    fun label => by simp [bne, beq_eq_decide]
  have hplain : ∀ label : String, (!Text.occursIn separator.toList label.toList) =
      decide ¬ separator.toList <:+: label.toList := by
    intro label
    rw [Bool.eq_iff_iff, decide_eq_true_iff, ← Text.occursIn_iff, Bool.not_eq_true',
      Bool.not_eq_true]
  have hlength : ∀ labels : List String, best (fun label => (label.length : Int)) labels =
      best String.length labels := fun labels => best_congr fun _ _ => Int.ofNat_le
  simp only [selectLabelsBy, greatest_eq_best, prefer_eq_best, hcapital, hplain, hlength, best_map]
  rw [best_best, best_best, best_best]
  rfl

theorem selectLabelsBy_eq_nil_iff (row : Row) :
    selectLabelsBy lower separator row = [] ↔ row = [] := by
  rw [selectLabelsBy_eq_best, List.map_eq_nil_iff]
  constructor
  · intro hnil
    by_contra hrow
    exact best_ne_nil _ hrow hnil
  · rintro rfl
    exact best_nil _

/-- **The labels chosen are those of greatest merit**, in the order of the row, whatever
lower-casing is.  There is one unless the row is empty, and a row in another order gives the same
labels in another order. -/
theorem labels_have_greatest_merit (row : Row) :
    selectLabelsBy lower separator row =
        (row.filter fun entry => ∀ other ∈ row,
          merit lower separator other ≤ merit lower separator entry).map Prod.fst ∧
      (selectLabelsBy lower separator row = [] ↔ row = []) ∧
      (∀ row' : Row, row.Perm row' →
        (selectLabelsBy lower separator row).Perm (selectLabelsBy lower separator row')) ∧
      selectLabels separator row = selectLabelsBy Text.lower separator row := by
  refine ⟨selectLabelsBy_eq_best lower separator row, selectLabelsBy_eq_nil_iff lower separator row,
    ?_, rfl⟩
  intro row' hperm
  rw [selectLabelsBy_eq_best, selectLabelsBy_eq_best]
  exact (best_perm _ hperm).map _

/-- Of two labels with capitals that are counted equally often both are chosen, in either order; one
that is counted as often without capitals is not, nor a longer one that is counted less often. -/
theorem labels_have_greatest_merit_tie :
    List.Perm [("ab", 2), ("Xy", 2), ("Longer", 1), ("Zw", 2)]
        [("Zw", 2), ("Longer", 1), ("Xy", 2), ("ab", (2 : Int))] ∧
      selectLabels "$" [("ab", 2), ("Xy", 2), ("Longer", 1), ("Zw", 2)] = ["Xy", "Zw"] ∧
      (selectLabels "$" [("ab", 2), ("Xy", 2), ("Longer", 1), ("Zw", 2)]).Perm
        (selectLabels "$" [("Zw", 2), ("Longer", 1), ("Xy", 2), ("ab", 2)]) := by
  have hperm : List.Perm [("ab", 2), ("Xy", 2), ("Longer", 1), ("Zw", 2)]
      [("Zw", 2), ("Longer", 1), ("Xy", 2), ("ab", (2 : Int))] := by decide +kernel
  obtain ⟨-, -, hsame, -⟩ := labels_have_greatest_merit Text.lower "$"
    [("ab", 2), ("Xy", 2), ("Longer", 1), ("Zw", 2)]
  exact ⟨hperm, by decide +kernel, hsame _ hperm⟩

end Labels

end NameRecovery
