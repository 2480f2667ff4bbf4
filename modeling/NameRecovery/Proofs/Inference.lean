import NameRecovery.Proofs.Labels
import NameRecovery.Proofs.Pipeline
import NameRecovery.Proofs.Profile.Histogram

/-!
# What the inference passes make of names

A round of mining and the pass that looks at contexts rename the program after a table of
composed names.  Different names stay different unless they clash.

* `mineRound_tree`, `frequency_tree` — the program after the pass;
* `inference_merges_iff` — which names get the same spelling, in every context of a run;
* `mineRound_merges` — a program in which two do.
-/

namespace NameRecovery

open NameRecovery.Tree

/-! ## What the passes make of the program -/

namespace Work

variable {ctx : Context} {t : Tree}

/-- Work that leaves the program alone. -/
abbrev KeepsTree {α : Type} (t : Tree) (w : Work α) : Prop :=
  Keeps (fun ctx => ctx.tree = some t) w fun _ => True

theorem remark_keepsTree (remarks : List Remark) : KeepsTree t (remark remarks) :=
  .modify fun _ hctx => hctx

theorem changeReport_keepsTree (change : Report → Report) : KeepsTree t (changeReport change) :=
  .modify fun _ hctx => hctx

theorem render_keepsTree : KeepsTree t render := by
  unfold render
  refine .bind .get fun ctx hctx => ?_
  split
  · exact .fail _
  · refine .skip (.ofExcept fun _ _ => trivial) fun text => ?_
    exact .skip (.set hctx) fun _ => .pure trivial

/-- Whatever follows the renaming of a program and keeps its tree leaves the renamed one. -/
theorem renameTree_tree {α : Type} (h : t.isProgram = true) (table : Table String)
    {rest : Nat → Work α} (hrest : ∀ count, KeepsTree (t.renamed table.spell) (rest count)) :
    ((renameTree table t >>= rest).run ctx).2.tree = some (t.renamed table.spell) := by
  obtain ⟨-, count, hrename⟩ := rename_program h table
  have hrun : (renameTree table t).run ctx = (.ok count, { ctx with
      tree := some (t.renamed table.spell)
      trace := ctx.trace ++ renamedRemarks table count }) := by
    unfold renameTree
    rw [hrename]
    rfl
  rw [run_bind_ok hrun]
  exact (hrest count _ rfl).1

/-- Work that succeeds, and then what follows. -/
theorem tree_bind {α β : Type} {w : Work α} {f : α → Work β} {ctx' : Context} {a : α}
    (h : w.run ctx = (.ok a, ctx')) (hrest : ((f a).run ctx').2.tree = some t) :
    ((w >>= f).run ctx).2.tree = some t := by
  rw [run_bind_ok h]
  exact hrest

theorem run_parse {text : String} (h : parseProgram ctx.config.goal text = .ok t) :
    (parse text).run ctx = (.ok t, { ctx with trace := ctx.trace ++ [parsedRemark t] }) := by
  unfold parse
  rw [run_bind_ok (rfl : (get : Work Context).run ctx = (.ok ctx, ctx)), h]
  rfl

theorem run_ofExcept {α : Type} {x : Except Failure α} {a : α} (h : x = .ok a) :
    (ofExcept x).run ctx = (.ok a, ctx) := by
  rw [h]
  rfl

theorem run_remark (remarks : List Remark) :
    (remark remarks).run ctx = (.ok (), { ctx with trace := ctx.trace ++ remarks }) := rfl

theorem run_get : (get : Work Context).run ctx = (.ok ctx, ctx) := rfl

theorem declared_program (h : t.isProgram = true) :
    ∃ declared, t.declaredNames = .ok declared :=
  declaredNames_formed (Scope.isFormed_of_isProgram h) (isNode_of_isProgram h)

/-- A round of mining renames the program it parses after its table. -/
theorem mineRound_tree (index : Nat)
    (hparse : parseProgram ctx.config.goal ctx.text = .ok t) {declared : List String}
    (hdeclared : t.declaredNames = .ok declared) :
    ((mineRound index).run ctx).2.tree =
      some (t.renamed (minedTable ctx.config.separator ctx.text declared).spell) := by
  unfold mineRound
  refine tree_bind run_get (tree_bind (run_remark _) (tree_bind (run_parse hparse) ?_))
  refine tree_bind (run_ofExcept (congrArg liftFault hdeclared)) ?_
  refine renameTree_tree (isProgram_of_parseProgram hparse) (minedTable _ ctx.text declared)
    fun count => ?_
  refine .skip render_keepsTree fun _ => .skip (changeReport_keepsTree _) fun _ => ?_
  exact .skip (remark_keepsTree _) fun _ => .pure trivial

/-- The pass that looks at contexts renames the program after its table. -/
theorem frequency_tree {ctx' : Context} (htree : ensureTree.run ctx = (.ok t, ctx'))
    (hprogram : t.isProgram = true) {declared : List String}
    (hdeclared : t.declaredNames = .ok declared) {histogram : Histogram}
    (hhistogram : profile ctx'.config.stoplist t = .ok histogram) :
    (frequency.run ctx).2.tree =
      some (t.renamed (contextTable ctx'.config.separator histogram declared).spell) := by
  unfold frequency
  refine tree_bind htree (tree_bind run_get ?_)
  refine tree_bind (run_ofExcept (congrArg liftFault hhistogram)) (tree_bind (run_remark _) ?_)
  refine tree_bind (run_ofExcept (congrArg liftFault hdeclared)) (tree_bind (run_remark _) ?_)
  refine tree_bind rfl (renameTree_tree hprogram (contextTable _ histogram declared) fun _ => ?_)
  exact .skip (changeReport_keepsTree _) fun _ => .skip render_keepsTree fun _ => .pure trivial

/-- The contexts of the short names of a program can be read. -/
theorem profile_program (h : t.isProgram = true) (stoplist : List String) :
    ∃ histogram, profile stoplist t = .ok histogram :=
  profile_formed (Scope.isFormed_of_isProgram h) (isNode_of_isProgram h) stoplist

end Work

/-- A program before and after it was renamed after a table. -/
structure RenamedAfter (table : Table String) (before after : Tree) : Prop where
  /-- The occurrences stay in their places and get the names the table has for them. -/
  occurrences_eq : after.occurrences = before.occurrences.map fun o => (o.1, table.spell o.2)
  /-- The new names are composed with labels. -/
  labelled : Labelled table
  /-- Two occurrences with different names before have the same name after exactly if their
  names clash. -/
  same_name_iff : ∀ o ∈ before.occurrences, ∀ o' ∈ before.occurrences, o.2 ≠ o'.2 →
    (table.spell o.2 = table.spell o'.2 ↔ Clash table o.2 o'.2 ∨ Clash table o'.2 o.2)

theorem renamedAfter {table : Table String} (h : Labelled table) {t : Tree}
    (hprogram : t.isProgram = true) : RenamedAfter table t (t.renamed table.spell) :=
  { occurrences_eq := occurrences_respell (Scope.isFormed_of_isProgram hprogram)
    labelled := h
    same_name_iff := fun _ _ _ _ hne => h.spell_eq_iff hne }

/-- **The inference passes merge the names that clash, and no others**, in every context of
every run with the usual separator: a round of mining on the program the text stands for,
and the pass that looks at contexts on the program it works on. -/
theorem inference_merges_iff {source : String} {config : Config} {ctx : Context}
    (h : Reached source config ctx) (hsep : config.separator = "$") :
    (∀ index t, Grammar.parse config.goal ctx.text = .ok t → ∃ declared t',
      t.declaredNames = .ok declared ∧ ((Work.mineRound index).run ctx).2.tree = some t' ∧
        RenamedAfter (minedTable "$" ctx.text declared) t t') ∧
    (∀ t, (Work.ensureTree.run ctx).1 = .ok t → ∃ declared histogram t',
      t.declaredNames = .ok declared ∧ profile config.stoplist t = .ok histogram ∧
        (Work.frequency.run ctx).2.tree = some t' ∧
          RenamedAfter (contextTable "$" histogram declared) t t') := by
  obtain ⟨hconfig, -⟩ := h.sound
  constructor
  · intro index t hparse
    have hprogram := Grammar.isProgram_of_parse hparse
    obtain ⟨declared, hdeclared⟩ := Work.declared_program hprogram
    have hparse' : parseProgram ctx.config.goal ctx.text = .ok t := by
      rw [hconfig, parseProgram, hparse]
    refine ⟨declared, _, hdeclared, ?_, renamedAfter (minedTable_labelled _ _) hprogram⟩
    have htree := Work.mineRound_tree index hparse' hdeclared
    rwa [hconfig, hsep] at htree
  · intro t ht
    obtain ⟨hsound, hprogram⟩ := Work.ensureTree_sound ctx h.sound
    have hprogram := hprogram t ht
    obtain ⟨declared, hdeclared⟩ := Work.declared_program hprogram
    obtain ⟨histogram, hhistogram⟩ := Work.profile_program hprogram config.stoplist
    have hrun : Work.ensureTree.run ctx = (.ok t, (Work.ensureTree.run ctx).2) :=
      Prod.ext ht rfl
    refine ⟨declared, histogram, _, hdeclared, hhistogram, ?_,
      renamedAfter (contextTable_labelled _ _) hprogram⟩
    have htree := Work.frequency_tree hrun hprogram hdeclared (hsound.1 ▸ hhistogram)
    rwa [hsound.1, hsep] at htree

/-- The context of a run once its text has been parsed and printed. -/
def parsedContext (source : String) : Context :=
  (Work.ensureTree.run { source }).2

theorem parsedContext_reached (source : String) : Reached source {} (parsedContext source) :=
  Reached.start.ensureTree

set_option maxRecDepth 100000 in
/-- In the first round of mining the name of a window is merged with one that is spelled like
the composed name. -/
theorem inference_merges_window : ∃ t declared t',
    Grammar.parse .script (parsedContext "var a = window.foo, windowFoo$a = 1").text = .ok t ∧
      ((Work.mineRound 1).run (parsedContext "var a = window.foo, windowFoo$a = 1")).2.tree =
        some t' ∧
      RenamedAfter
        (minedTable "$" (parsedContext "var a = window.foo, windowFoo$a = 1").text declared) t t' := by
  have hmerges := (inference_merges_iff
    (parsedContext_reached "var a = window.foo, windowFoo$a = 1") rfl).1 1
  have hok : (Grammar.parse .script
      (parsedContext "var a = window.foo, windowFoo$a = 1").text).toOption.isSome = true := by
    decide +kernel
  cases hparse : Grammar.parse .script
      (parsedContext "var a = window.foo, windowFoo$a = 1").text with
  | error e => rw [hparse] at hok; cases hok
  | ok t =>
      obtain ⟨declared, t', -, htree, hrenamed⟩ := hmerges t hparse
      exact ⟨t, declared, t', rfl, htree, hrenamed⟩

set_option maxRecDepth 100000 in
/-- A round of mining in which two different names become one. -/
theorem mineRound_merges : ∃ ctx t t', Reached "var a = window.foo, windowFoo$a = 1" {} ctx ∧
    Grammar.parse .script ctx.text = .ok t ∧ ((Work.mineRound 1).run ctx).2.tree = some t' ∧
      t.occurrences.map Prod.snd = ["a", "window", "windowFoo$a"] ∧
        t'.occurrences.map Prod.snd = ["windowFoo$a", "window", "windowFoo$a"] := by
  have hrun : ((Grammar.parse .script
      (parsedContext "var a = window.foo, windowFoo$a = 1").text).toOption.bind fun t =>
        ((Work.mineRound 1).run (parsedContext "var a = window.foo, windowFoo$a = 1")).2.tree.map
          fun t' => (t.occurrences.map Prod.snd, t'.occurrences.map Prod.snd)) =
      some (["a", "window", "windowFoo$a"], ["windowFoo$a", "window", "windowFoo$a"]) := by
    decide +kernel
  obtain ⟨t, hparse, hrest⟩ := Option.bind_eq_some_iff.1 hrun
  obtain ⟨t', htree, hnames⟩ := Option.map_eq_some_iff.1 hrest
  obtain ⟨hbefore, hafter⟩ := Prod.mk.inj hnames
  refine ⟨_, t, t', parsedContext_reached _, ?_, htree, hbefore, hafter⟩
  exact ok_of_toOption hparse

end NameRecovery
