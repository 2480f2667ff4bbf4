import NameRecovery.Pipeline
import NameRecovery.Proofs.Grammar.Statement
import NameRecovery.Proofs.Renaming
import NameRecovery.Proofs.Scope.Separation

/-!
# The contexts of a run

Whatever passes a run is made of, its settings stay the same and the program it works on
is a formed one.

* `Work.Keeps` — work that keeps what is known of the context;
* `Reached` — the contexts a run can come to;
* `Reached.sound` — what is known of all of them;
* `runOn_reached` — every run stays among them;
* `recoverNames_eq` — a run sends its text through the four passes in turn.
-/

namespace NameRecovery

open NameRecovery.Tree

namespace Work

variable {α β : Type}

/-! ## Work on a context -/

theorem run_bind (w : Work α) (f : α → Work β) (ctx : Context) :
    (w >>= f).run ctx =
      match w.run ctx with
      | (.ok a, ctx') => (f a).run ctx'
      | (.error failure, ctx') => (.error failure, ctx') := by
  change (match w.run ctx with | (a, ctx') => (ExceptT.bindCont f a).run ctx') = _
  rcases w.run ctx with ⟨a | a, ctx'⟩ <;> rfl

theorem run_bind_ok {w : Work α} {f : α → Work β} {ctx ctx' : Context} {a : α}
    (h : w.run ctx = (.ok a, ctx')) : (w >>= f).run ctx = (f a).run ctx' := by
  rw [run_bind, h]

/-- Does the work keep what `I` says of the context, and do its results satisfy `Q`? -/
def Keeps (I : Context → Prop) (w : Work α) (Q : α → Prop) : Prop :=
  ∀ ctx, I ctx → I (w.run ctx).2 ∧ ∀ a, (w.run ctx).1 = .ok a → Q a

namespace Keeps

variable {I : Context → Prop} {w : Work α} {f : α → Work β} {P : α → Prop} {Q : β → Prop}

theorem pure {a : α} (h : P a) : Keeps I (pure a) P := by
  refine fun ctx hctx => ⟨hctx, fun b hb => ?_⟩
  obtain rfl := Except.ok.inj hb
  exact h

theorem fail (failure : Failure) : Keeps I (fail failure) P :=
  fun _ hctx => ⟨hctx, nofun⟩

theorem bind (hw : Keeps I w P) (hf : ∀ a, P a → Keeps I (f a) Q) : Keeps I (w >>= f) Q := by
  intro ctx hctx
  obtain ⟨hctx', hresult⟩ := hw ctx hctx
  rw [run_bind]
  rcases hrun : w.run ctx with ⟨a | a, ctx'⟩ <;> rw [hrun] at hctx' hresult
  · exact ⟨hctx', nofun⟩
  · exact hf a (hresult a rfl) ctx' hctx'

/-- Work whose result does not matter. -/
theorem skip (hw : Keeps I w P) (hf : ∀ a, Keeps I (f a) Q) : Keeps I (w >>= f) Q :=
  bind hw fun a _ => hf a

theorem get : Keeps I get I := by
  refine fun ctx hctx => ⟨hctx, fun a ha => ?_⟩
  obtain rfl := Except.ok.inj ha
  exact hctx

theorem set {ctx : Context} (h : I ctx) : Keeps I (set ctx) fun _ => True :=
  fun _ _ => ⟨h, fun _ _ => trivial⟩

theorem modify {change : Context → Context} (h : ∀ ctx, I ctx → I (change ctx)) :
    Keeps I (modify change) fun _ => True :=
  fun ctx hctx => ⟨h ctx hctx, fun _ _ => trivial⟩

theorem ofExcept {x : Except Failure α} (h : ∀ a, x = .ok a → P a) : Keeps I (ofExcept x) P := by
  cases x with
  | ok a => exact .pure (h a rfl)
  | error failure => exact .fail failure

theorem ite {c : Prop} [Decidable c] {v w : Work α} (hv : c → Keeps I v P)
    (hw : ¬ c → Keeps I w P) : Keeps I (if c then v else w) P := by
  split
  · exact hv ‹c›
  · exact hw ‹¬ c›

end Keeps

/-! ## What the passes keep -/

/-- Is what the passes need known of the context: its settings, and that its program, if
there is one, is formed? -/
def Sound (config : Config) (ctx : Context) : Prop :=
  ctx.config = config ∧ ∀ t, ctx.tree = some t → t.isProgram = true

section Sound

variable {config : Config}

theorem remark_sound (remarks : List Remark) :
    Keeps (Sound config) (remark remarks) fun _ => True :=
  .modify fun _ hctx => hctx

theorem changeReport_sound (change : Report → Report) :
    Keeps (Sound config) (changeReport change) fun _ => True :=
  .modify fun _ hctx => hctx

theorem setTree_sound {t : Tree} (h : t.isProgram = true) :
    Keeps (Sound config) (setTree t) fun _ => True := by
  refine .modify fun ctx hctx => ⟨hctx.1, fun t' ht' => ?_⟩
  obtain rfl := Option.some.inj ht'
  exact h

theorem isProgram_of_parseProgram {goal : Grammar.Goal} {text : String} {t : Tree}
    (h : parseProgram goal text = .ok t) : t.isProgram = true := by
  unfold parseProgram at h
  split at h
  · rename_i tree hparse
    rw [← Except.ok.inj h]
    exact Grammar.isProgram_of_parse hparse
  · split at h <;> cases h

theorem parse_sound (text : String) :
    Keeps (Sound config) (parse text) fun t => t.isProgram = true := by
  unfold parse
  refine .bind .get fun ctx hctx => .bind (.ofExcept fun t ht => ht) fun t ht => ?_
  exact .skip (remark_sound _) fun _ => .pure (isProgram_of_parseProgram ht)

theorem render_sound : Keeps (Sound config) render fun _ => True := by
  unfold render
  refine .bind .get fun ctx hctx => ?_
  split
  · exact .fail _
  · refine .skip (.ofExcept fun _ _ => trivial) fun text => ?_
    exact .skip (.set hctx) fun _ => .pure trivial

theorem ensureTree_sound : Keeps (Sound config) ensureTree fun t => t.isProgram = true := by
  unfold ensureTree
  refine .bind .get fun ctx hctx => ?_
  split
  · rename_i tree htree
    exact .pure (hctx.2 tree htree)
  · refine .bind (parse_sound _) fun t ht => .skip (setTree_sound ht) fun _ => ?_
    exact .skip render_sound fun _ => .pure ht

theorem isNode_of_isProgram {t : Tree} (h : t.isProgram = true) : t.isNode = true := by
  obtain ⟨fields, rfl, -⟩ := Scope.exists_fields_of_isProgram h
  rfl

/-- Renaming a program after a table succeeds and gives a program. -/
theorem rename_program {t : Tree} (h : t.isProgram = true) (table : Table String) :
    (t.renamed table.spell).isProgram = true ∧
      ∃ count, t.rename table = (t.renamed table.spell, .ok count) :=
  ⟨isProgram_respell h,
    rename_formed (Scope.isFormed_of_isProgram h) (isNode_of_isProgram h) table⟩

theorem renameTree_sound {t : Tree} (h : t.isProgram = true) (table : Table String) :
    Keeps (Sound config) (renameTree table t) fun _ => True := by
  obtain ⟨hprogram, count, hrename⟩ := rename_program h table
  unfold renameTree
  rw [hrename]
  refine .skip (setTree_sound hprogram) fun _ => .skip (.ofExcept fun _ _ => trivial) fun _ => ?_
  exact .skip (remark_sound _) fun _ => .pure trivial

theorem isProgram_of_resolve {t : Tree} (h : t.isProgram = true) {res : Scope.Resolution}
    (hres : Scope.resolve t = .ok res) : res.tree.isProgram = true := by
  obtain ⟨res', dry, real, hruns⟩ := Scope.runs_program h
  obtain rfl := Except.ok.inj (hruns.resolved.symm.trans hres)
  rw [hruns.tree_eq_respell (Scope.isFormed_of_isProgram h)]
  exact isProgram_respell h

theorem deshadow_sound : Keeps (Sound config) deshadow fun _ => True := by
  unfold deshadow
  refine .bind .get fun ctx _ => .bind (parse_sound _) fun t ht => .skip (setTree_sound ht) fun _ => ?_
  split
  · exact .fail _
  · rename_i res hres
    refine .skip (remark_sound _) fun _ => ?_
    refine .skip (setTree_sound (isProgram_of_resolve ht hres)) fun _ => ?_
    exact .skip (changeReport_sound _) fun _ => .skip render_sound fun _ => .pure trivial

theorem mineRound_sound (index : Nat) : Keeps (Sound config) (mineRound index) fun _ => True := by
  unfold mineRound
  refine .bind .get fun ctx _ => .skip (remark_sound _) fun _ => .bind (parse_sound _) fun t ht => ?_
  refine .skip (.ofExcept fun _ _ => trivial) fun declared => .skip (renameTree_sound ht _) fun _ => ?_
  refine .skip render_sound fun _ => .skip (changeReport_sound _) fun _ => ?_
  exact .skip (remark_sound _) fun _ => .pure trivial

theorem frequency_sound : Keeps (Sound config) frequency fun _ => True := by
  unfold frequency
  refine .bind ensureTree_sound fun t ht => .bind .get fun ctx _ => ?_
  refine .skip (.ofExcept fun _ _ => trivial) fun histogram => .skip (remark_sound _) fun _ => ?_
  refine .skip (.ofExcept fun _ _ => trivial) fun declared => .skip (remark_sound _) fun _ => ?_
  refine .skip (changeReport_sound _) fun _ => .skip (renameTree_sound ht _) fun _ => ?_
  exact .skip (changeReport_sound _) fun _ => .skip render_sound fun _ => .pure trivial

theorem fixups_sound : Keeps (Sound config) fixups fun _ => True := by
  unfold fixups
  exact .skip ensureTree_sound fun _ => .modify fun _ hctx => hctx

end Sound

end Work

/-! ## The contexts of a run -/

/-- The contexts a run over a text can come to: after any work of any pass, done or given
up.  Remarks and reports may be added at any time. -/
inductive Reached (source : String) (config : Config) : Context → Prop where
  /-- At the start. -/
  | start : Reached source config { source, config }
  /-- After resolving the bindings. -/
  | deshadow {ctx : Context} (h : Reached source config ctx) :
      Reached source config (Work.deshadow.run ctx).2
  /-- After parsing, where that has not been done. -/
  | ensureTree {ctx : Context} (h : Reached source config ctx) :
      Reached source config (Work.ensureTree.run ctx).2
  /-- After a round of mining. -/
  | mineRound {ctx : Context} (index : Nat) (h : Reached source config ctx) :
      Reached source config ((Work.mineRound index).run ctx).2
  /-- After the names were looked up in their contexts. -/
  | frequency {ctx : Context} (h : Reached source config ctx) :
      Reached source config (Work.frequency.run ctx).2
  /-- After the functions were named. -/
  | fixups {ctx : Context} (h : Reached source config ctx) :
      Reached source config (Work.fixups.run ctx).2
  /-- After something was noted. -/
  | noted {ctx : Context} (report : Report) (trace : List Remark) (h : Reached source config ctx) :
      Reached source config { ctx with report, trace }

variable {source : String} {config : Config}

/-- What is known of all contexts of a run. -/
theorem Reached.sound {ctx : Context} (h : Reached source config ctx) : Work.Sound config ctx := by
  induction h with
  | start => exact ⟨rfl, nofun⟩
  | deshadow _ ih => exact (Work.deshadow_sound _ ih).1
  | ensureTree _ ih => exact (Work.ensureTree_sound _ ih).1
  | mineRound index _ ih => exact (Work.mineRound_sound index _ ih).1
  | frequency _ ih => exact (Work.frequency_sound _ ih).1
  | fixups _ ih => exact (Work.fixups_sound _ ih).1
  | noted report trace _ ih => exact ih

/-- The standard passes stand in the order in which they run. -/
theorem standardPasses_inOrder : standardPasses.inOrder = standardPasses :=
  List.mergeSort_of_pairwise (by decide)

namespace Work

theorem remark_reached (remarks : List Remark) :
    Keeps (Reached source config) (remark remarks) fun _ => True :=
  .modify fun ctx hctx => hctx.noted ctx.report (ctx.trace ++ remarks)

theorem changeReport_reached (change : Report → Report) :
    Keeps (Reached source config) (changeReport change) fun _ => True :=
  .modify fun ctx hctx => hctx.noted (change ctx.report) ctx.trace

theorem mineRounds_reached (left index : Nat) :
    Keeps (Reached source config) (mineRounds left index) fun _ => True := by
  induction left generalizing index with
  | zero =>
      unfold mineRounds
      refine .bind .get fun ctx _ => .ite (fun _ => changeReport_reached _) fun _ => .pure trivial
  | succ left ih =>
      unfold mineRounds
      refine .skip (fun ctx hctx => ⟨hctx.mineRound index, fun _ _ => trivial⟩) fun renamed => ?_
      refine .bind .get fun ctx _ => .ite (fun _ => remark_reached _) fun _ => ih (index + 1)

theorem mine_reached : Keeps (Reached source config) mine fun _ => True := by
  unfold mine
  refine .skip (fun ctx hctx => ⟨hctx.ensureTree, fun _ _ => trivial⟩) fun _ => ?_
  exact .bind .get fun ctx _ => mineRounds_reached _ _

/-- The standard passes stay among the contexts of a run. -/
theorem standardPasses_reached : ∀ pass ∈ standardPasses,
    Keeps (Reached source config) pass.2.action fun _ => True := by
  simp only [standardPasses, List.forall_mem_cons]
  refine ⟨fun ctx hctx => ⟨hctx.deshadow, fun _ _ => trivial⟩, mine_reached,
    fun ctx hctx => ⟨hctx.frequency, fun _ _ => trivial⟩,
    fun ctx hctx => ⟨hctx.fixups, fun _ _ => trivial⟩, nofun⟩

theorem adapt_reached {w : Work Unit} (f : Failure → Failure)
    (h : Keeps (Reached source config) w fun _ => True) :
    Keeps (Reached source config) (ExceptT.adapt f w) fun _ => True := by
  intro ctx hctx
  refine ⟨?_, fun _ _ => trivial⟩
  have hsame : ((ExceptT.adapt f w).run ctx).2 = (w.run ctx).2 := rfl
  rw [hsame]
  exact (h ctx hctx).1

theorem runAll_reached {passes : List (String × Pass)}
    (h : ∀ pass ∈ passes, Keeps (Reached source config) pass.2.action fun _ => True) :
    Keeps (Reached source config) (runAll passes) fun _ => True := by
  induction passes with
  | nil => exact .pure trivial
  | cons pass rest ih =>
      unfold runAll runPass
      refine .skip (P := fun _ => True) ?_ fun _ => ih fun p hp => h p (List.mem_cons_of_mem _ hp)
      refine .skip (adapt_reached _ (h pass List.mem_cons_self)) fun _ => ?_
      exact remark_reached _

theorem runPasses_reached (skip only : List String) :
    Keeps (Reached source config) (runPasses standardPasses skip only) fun _ => True := by
  unfold runPasses
  refine .skip (runAll_reached fun pass hpass => ?_) fun _ => ?_
  · refine standardPasses_reached pass ?_
    exact (List.mergeSort_perm ..).mem_iff.1 (List.mem_filter.1 hpass).1
  · exact .skip (changeReport_reached _) fun _ => .pure trivial

end Work

/-- Every run stays among the contexts it can come to. -/
theorem runOn_reached (skip only : List String) :
    Reached source config (runOn source config skip only).2 := by
  have hrun : Reached source config
      ((Work.runPasses standardPasses skip only).run { source, config }).2 :=
    (Work.runPasses_reached skip only _ .start).1
  unfold runOn
  rcases hpasses : (Work.runPasses standardPasses skip only).run { source, config } with
    ⟨outcome | names, ctx⟩
  · rw [hpasses] at hrun
    exact hrun
  · rw [hpasses] at hrun
    exact hrun.noted _ ctx.trace

/-! ## Computing what a run gives -/

/-- A run over a text sends it through the four passes in turn. -/
theorem recoverNames_eq (source : String) (config : Config) :
    recoverNames source config =
      match (Work.runAll standardPasses).run { source, config } with
      | (.ok _, ctx) => .ok ctx.output
      | (.error failure, _) => .error failure := by
  have hrun : (Work.runPasses standardPasses [] []).run { source, config } =
      match (Work.runAll standardPasses).run { source, config } with
      | (.ok _, ctx) => (.ok (standardPasses.map Prod.fst),
          { ctx with report :=
              { ctx.report with
                completed := ctx.report.completed ++ standardPasses.map Prod.fst } })
      | (.error failure, ctx) => (.error failure, ctx) := by
    unfold Work.runPasses
    rw [standardPasses_inOrder]
    change ((Work.runAll standardPasses) >>= _).run _ = _
    rw [Work.run_bind]
    rcases (Work.runAll standardPasses).run { source, config } with ⟨a | a, ctx⟩ <;> rfl
  simp only [recoverNames, runOn, hrun]
  rcases (Work.runAll standardPasses).run { source, config } with ⟨a | a, ctx⟩ <;> rfl

/-- What a run over the text gives, computed. -/
def outputOf (source : String) (config : Config) : Option String :=
  match (Work.runAll standardPasses).run { source, config } with
  | (.ok _, ctx) => some ctx.output
  | (.error _, _) => none

theorem recoverNames_of_outputOf {source : String} {config : Config} {output : String}
    (h : outputOf source config = some output) : recoverNames source config = .ok output := by
  rw [recoverNames_eq]
  unfold outputOf at h
  rcases hrun : (Work.runAll standardPasses).run { source, config } with ⟨failure | a, ctx⟩ <;>
    rw [hrun] at h
  · cases h
  · obtain rfl := Option.some.inj h
    rfl

end NameRecovery
