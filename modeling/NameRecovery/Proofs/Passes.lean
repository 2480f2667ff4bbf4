import Mathlib.Data.List.Induction
import NameRecovery.Proofs.Pipeline
import NameRecovery.Proofs.Table

/-!
# Which passes run, and what a failing one leaves

Passes are registered under names, a later one in place of an earlier one of its name.  A
run selects some of them by two lists of names and carries them out by their places.  The
first one that fails ends the run: those before it have run once, those behind it not at
all, and nothing is recorded.

* `IsRegistered` — the last pass that was registered under its name;
* `Selection` — the selected passes, each once and in ascending order;
* `Carried` — passes carried out one after the other, from context to context;
* `RunsTo` — what a run over selected passes comes to;
* `runPasses_exact` — a run selects just these passes and comes to just that.
-/

namespace NameRecovery

/-! ## Registering -/

/-- Is this the last pass registered under its name? -/
def IsRegistered (calls : List (String × Pass)) (pass : String × Pass) : Prop :=
  ∃ before after, calls = before ++ pass :: after ∧ pass.1 ∉ after.map Prod.fst

theorem isRegistered_concat (calls : List (String × Pass)) (last pass : String × Pass) :
    IsRegistered (calls ++ [last]) pass ↔
      pass = last ∨ IsRegistered calls pass ∧ pass.1 ≠ last.1 := by
  constructor
  · rintro ⟨before, after, hcalls, hlater⟩
    rcases List.eq_nil_or_concat after with rfl | ⟨after, other, rfl⟩
    · exact .inl (List.cons.inj (List.append_inj' hcalls rfl).2).1.symm
    · have hsplit : calls ++ [last] = (before ++ pass :: after) ++ [other] := by
        rw [hcalls, List.concat_eq_append, List.append_assoc, List.cons_append]
      obtain ⟨rfl, hlast⟩ := List.append_inj' hsplit rfl
      obtain rfl := (List.cons.inj hlast).1
      rw [List.concat_eq_append, List.map_append, List.mem_append, not_or] at hlater
      exact .inr ⟨⟨before, after, rfl, hlater.1⟩, fun heq => hlater.2 (by simp [heq])⟩
  · rintro (rfl | ⟨⟨before, after, rfl, hlater⟩, hne⟩)
    · exact ⟨calls, [], rfl, List.not_mem_nil⟩
    · refine ⟨before, after ++ [last], by rw [List.append_assoc, List.cons_append], ?_⟩
      rw [List.map_append, List.mem_append, not_or]
      exact ⟨hlater, by simpa using hne⟩

/-- The registered passes are the last ones under each name. -/
theorem mem_registered_iff (calls : List (String × Pass)) :
    (Table.keys (Table.ofList calls)).Nodup ∧
      ∀ pass, pass ∈ Table.ofList calls ↔ IsRegistered calls pass := by
  induction calls using List.reverseRecOn with
  | nil =>
      refine ⟨List.nodup_nil, fun pass => ⟨fun h => absurd h List.not_mem_nil, ?_⟩⟩
      rintro ⟨before, after, hcalls, -⟩
      simp at hcalls
  | append_singleton calls last ih =>
      obtain ⟨hnodup, hmem⟩ := ih
      rw [Table.ofList_concat]
      refine ⟨Table.nodup_put hnodup _ _, fun pass => ?_⟩
      rw [Table.mem_put_iff hnodup, isRegistered_concat, hmem]

/-! ## Selecting -/

/-- Does the list mean the name?  Blanks around a name do not count, nor do empty names. -/
def IsMeant (names : List String) (name : String) : Prop :=
  ∃ text ∈ names, text ≠ "" ∧ Text.stripped text = name

/-- Is a pass to run?  It is if it is not to be left out and, where names to keep are meant
at all, its name is one of them. -/
def IsWanted (skip only : List String) (name : String) : Prop :=
  ¬ IsMeant skip name ∧ ((∃ kept, IsMeant only kept) → IsMeant only name)

/-- Does a pass stand before another?  Those of the same order stand by name. -/
def Pass.Before (a b : String × Pass) : Prop :=
  a.2.order < b.2.order ∨ a.2.order = b.2.order ∧ a.1 < b.1

/-- The passes a run selects among those registered. -/
structure Selection (calls : List (String × Pass)) (skip only : List String)
    (selected : List (String × Pass)) : Prop where
  /-- They are the registered ones that are wanted. -/
  mem_iff : ∀ pass, pass ∈ selected ↔ IsRegistered calls pass ∧ IsWanted skip only pass.1
  /-- Each stands once, before all that come after it. -/
  ascending : selected.Pairwise Pass.Before
  /-- The order is that of the names. -/
  names_order : (selected.map Prod.fst).Sublist (Passes.names (Table.ofList calls))
  /-- There is no other name, and none stands twice. -/
  names_exact : (Passes.names (Table.ofList calls)).Nodup ∧
    ∀ name, name ∈ Passes.names (Table.ofList calls) ↔ ∃ pass, IsRegistered calls (name, pass)

namespace Passes

theorem mem_meant_iff (names : List String) (name : String) :
    name ∈ meant names ↔ IsMeant names name := by
  simp only [meant, List.mem_map, List.mem_filter, decide_eq_true_eq, IsMeant, and_assoc]

theorem isSelected_iff (skip only : List String) (name : String) :
    isSelected (meant skip) (meant only) name = true ↔ IsWanted skip only name := by
  have hkept : (meant only).isEmpty = true ↔ ¬ ∃ kept, IsMeant only kept := by
    simp only [← mem_meant_iff, List.isEmpty_iff, List.eq_nil_iff_forall_not_mem, not_exists]
  rw [isSelected, Bool.and_eq_true, Bool.or_eq_true, hkept, List.contains_iff_mem, mem_meant_iff,
    Bool.not_eq_true', ← Bool.not_eq_true, List.contains_iff_mem, mem_meant_iff, IsWanted,
    ← imp_iff_not_or]

/-- Passes of different names stand in order. -/
theorem inOrder_ascending {passes : Passes} (h : (Table.keys passes).Nodup) :
    passes.inOrder.Pairwise Pass.Before := by
  have hnodup : passes.inOrder.Pairwise fun a b => a.1 ≠ b.1 :=
    List.pairwise_map.1 (((List.mergeSort_perm ..).map Prod.fst).nodup_iff.2 h)
  have hsorted : passes.inOrder.Pairwise fun a b =>
      a.2.order < b.2.order || (a.2.order == b.2.order && a.1 ≤ b.1) :=
    List.pairwise_mergeSort ?_ ?_ passes
  · refine (hsorted.and hnodup).imp fun {a b} hab => ?_
    obtain ⟨hle, hne⟩ := hab
    simp only [Bool.or_eq_true, Bool.and_eq_true, decide_eq_true_eq, beq_iff_eq] at hle
    exact hle.imp_right fun h => ⟨h.1, Std.lt_of_le_of_ne h.2 hne⟩
  · intro a b c hab hbc
    simp only [Bool.or_eq_true, Bool.and_eq_true, decide_eq_true_eq, beq_iff_eq] at hab hbc ⊢
    rcases hab with hab | ⟨hab, hab'⟩ <;> rcases hbc with hbc | ⟨hbc, hbc'⟩
    · exact .inl (Int.lt_trans hab hbc)
    · exact .inl (hbc ▸ hab)
    · exact .inl (hab ▸ hbc)
    · exact .inr ⟨hab.trans hbc, String.le_trans hab' hbc'⟩
  · intro a b
    simp only [Bool.or_eq_true, Bool.and_eq_true, decide_eq_true_eq, beq_iff_eq]
    rcases Int.lt_trichotomy a.2.order b.2.order with h | h | h
    · exact .inl (.inl h)
    · exact (String.le_total a.1 b.1).imp (fun hle => .inr ⟨h, hle⟩) fun hle => .inr ⟨h.symm, hle⟩
    · exact .inr (.inl h)

/-- The passes that a run carries out. -/
def selected (passes : Passes) (skip only : List String) : List (String × Pass) :=
  passes.inOrder.filter fun pass => isSelected (meant skip) (meant only) pass.1

theorem selection_selected (calls : List (String × Pass)) (skip only : List String) :
    Selection calls skip only (selected (Table.ofList calls) skip only) := by
  obtain ⟨hnodup, hmem⟩ := mem_registered_iff calls
  have hperm : (inOrder (Table.ofList calls)).Perm (Table.ofList calls) := List.mergeSort_perm ..
  refine
    { mem_iff := fun pass => ?_
      ascending := (inOrder_ascending hnodup).filter _
      names_order := List.filter_sublist.map _
      names_exact := ⟨(hperm.map Prod.fst).nodup_iff.2 hnodup, fun name => ?_⟩ }
  · rw [selected, List.mem_filter, hperm.mem_iff, hmem, isSelected_iff]
  · rw [names, (hperm.map Prod.fst).mem_iff, List.mem_map]
    constructor
    · rintro ⟨pass, hpass, rfl⟩
      exact ⟨pass.2, (hmem pass).1 hpass⟩
    · rintro ⟨pass, hpass⟩
      exact ⟨(name, pass), (hmem _).2 hpass, rfl⟩

end Passes

/-! ## Carrying out -/

/-- The context with a remark on a completed pass. -/
def Context.remarked (ctx : Context) (pass : String) : Context :=
  { ctx with
    trace := ctx.trace ++ [⟨.passes, "pass " ++ pass ++ " completed in " ++ shownDuration⟩] }

/-- The context with more passes in the record of completed ones. -/
def Context.recorded (ctx : Context) (passes : List String) : Context :=
  { ctx with report := { ctx.report with completed := ctx.report.completed ++ passes } }

/-- Passes carried out one after the other, each once: every one works on the context that
the one before it left. -/
inductive Carried : List (String × Pass) → Context → Context → Prop where
  /-- No pass changes nothing. -/
  | nil (ctx : Context) : Carried [] ctx ctx
  /-- A pass that succeeds, and the others behind it. -/
  | cons {pass : String × Pass} {rest : List (String × Pass)} {ctx mid ctx' : Context}
      (hpass : pass.2.action.run ctx = (.ok (), mid))
      (hrest : Carried rest (mid.remarked pass.1) ctx') : Carried (pass :: rest) ctx ctx'

/-- How a failure of a pass is reported: those of this program's own kind as they are, any
other as a failure of the pass. -/
inductive ReportedAs (pass : String) : Failure → Failure → Prop where
  /-- A failure of this program's own kind. -/
  | own {failure : Failure} (h : ∀ cause, failure ≠ .trouble cause) :
      ReportedAs pass failure failure
  /-- Any other failure. -/
  | trouble (cause : Trouble) : ReportedAs pass (.trouble cause) (.passFailed pass cause)

/-- What a run over selected passes comes to. -/
inductive RunsTo (selected : List (String × Pass)) (ctx : Context) :
    Except Failure (List String) × Context → Prop where
  /-- All passes succeed, and their names are recorded. -/
  | finished {ctx' : Context} (hall : Carried selected ctx ctx') :
      RunsTo selected ctx (.ok (selected.map Prod.fst), ctx'.recorded (selected.map Prod.fst))
  /-- A pass fails; what it leaves is left. -/
  | failed {before after : List (String × Pass)} {pass : String × Pass} {mid ctx' : Context}
      {failure reported : Failure} (hselected : selected = before ++ pass :: after)
      (hbefore : Carried before ctx mid) (hpass : pass.2.action.run mid = (.error failure, ctx'))
      (hreported : ReportedAs pass.1 failure reported) :
      RunsTo selected ctx (.error reported, ctx')

theorem reportedAs_iff (pass : String) (failure reported : Failure) :
    ReportedAs pass failure reported ↔ reported = failure.inPass pass := by
  constructor
  · rintro (h | cause)
    · cases failure with
      | trouble cause => exact absurd rfl (h cause)
      | _ => rfl
    · rfl
  · rintro rfl
    cases failure with
    | trouble cause => exact .trouble cause
    | _ => exact .own nofun

namespace Work

theorem runPass_run (pass : String × Pass) (ctx : Context) :
    (runPass pass).run ctx =
      match pass.2.action.run ctx with
      | (.ok _, mid) => (.ok (), mid.remarked pass.1)
      | (.error failure, mid) => (.error (failure.inPass pass.1), mid) := by
  have hadapt : (ExceptT.adapt (Failure.inPass pass.1) pass.2.action).run ctx =
      ((pass.2.action.run ctx).1.mapError (Failure.inPass pass.1), (pass.2.action.run ctx).2) := rfl
  rw [runPass, run_bind, hadapt]
  rcases pass.2.action.run ctx with ⟨failure | done, mid⟩ <;> rfl

/-- Where one pass succeeds, the others go on from what it left. -/
theorem runAll_cons_ok {pass : String × Pass} {ctx mid : Context}
    (h : pass.2.action.run ctx = (.ok (), mid)) (rest : List (String × Pass)) :
    (runAll (pass :: rest)).run ctx = (runAll rest).run (mid.remarked pass.1) := by
  rw [runAll, run_bind, runPass_run, h]

/-- Where one pass fails, all ends. -/
theorem runAll_cons_error {pass : String × Pass} {ctx mid : Context} {failure : Failure}
    (h : pass.2.action.run ctx = (.error failure, mid)) (rest : List (String × Pass)) :
    (runAll (pass :: rest)).run ctx = (.error (failure.inPass pass.1), mid) := by
  rw [runAll, run_bind, runPass_run, h]

theorem runAll_of_carried {first : List (String × Pass)} {ctx mid : Context}
    (h : Carried first ctx mid) (rest : List (String × Pass)) :
    (runAll (first ++ rest)).run ctx = (runAll rest).run mid := by
  induction h with
  | nil ctx => rfl
  | cons hpass _ ih => rw [List.cons_append, runAll_cons_ok hpass, ih]

/-- A run either carries out all passes or ends with the first one that fails. -/
theorem runAll_cases (passes : List (String × Pass)) (ctx : Context) :
    (∃ ctx', Carried passes ctx ctx') ∨
      ∃ before pass after mid failure ctx', passes = before ++ pass :: after ∧
        Carried before ctx mid ∧ pass.2.action.run mid = (.error failure, ctx') := by
  induction passes generalizing ctx with
  | nil => exact .inl ⟨ctx, .nil ctx⟩
  | cons pass rest ih =>
      rcases hpass : pass.2.action.run ctx with ⟨failure | done, mid⟩
      · exact .inr ⟨[], pass, rest, ctx, failure, mid, rfl, .nil ctx, hpass⟩
      · rcases ih (mid.remarked pass.1) with
          ⟨ctx', hrest⟩ | ⟨before, failing, after, mid', failure, ctx', hsplit, hbefore, hfails⟩
        · exact .inl ⟨ctx', .cons hpass hrest⟩
        · refine .inr ⟨pass :: before, failing, after, mid', failure, ctx', ?_, ?_, hfails⟩
          · rw [hsplit, List.cons_append]
          · exact .cons hpass hbefore

/-- A run carries out the selected passes and records their names. -/
theorem runPasses_run (passes : Passes) (skip only : List String) (ctx : Context) :
    (runPasses passes skip only).run ctx =
      match (runAll (passes.selected skip only)).run ctx with
      | (.ok _, ctx') => (.ok ((passes.selected skip only).map Prod.fst),
          ctx'.recorded ((passes.selected skip only).map Prod.fst))
      | (.error failure, ctx') => (.error failure, ctx') := by
  have hbind := run_bind (runAll (passes.selected skip only)) (fun _ => do
    changeReport fun report =>
      { report with completed := report.completed ++ (passes.selected skip only).map Prod.fst }
    return (passes.selected skip only).map Prod.fst) ctx
  refine hbind.trans ?_
  rcases (runAll (passes.selected skip only)).run ctx with ⟨failure | done, ctx'⟩ <;> rfl

/-- A run over selected passes comes to one thing only. -/
theorem runPasses_eq_iff (passes : Passes) (skip only : List String) (ctx : Context)
    (outcome : Except Failure (List String) × Context) :
    (runPasses passes skip only).run ctx = outcome ↔
      RunsTo (passes.selected skip only) ctx outcome := by
  rw [runPasses_run]
  generalize passes.selected skip only = selected
  have hfinished : ∀ {ctx'}, Carried selected ctx ctx' →
      (runAll selected).run ctx = (.ok (), ctx') := by
    intro ctx' hall
    have hrun := runAll_of_carried hall []
    rw [List.append_nil] at hrun
    exact hrun
  have hfailed : ∀ {before after pass mid ctx' failure}, selected = before ++ pass :: after →
      Carried before ctx mid → pass.2.action.run mid = (.error failure, ctx') →
      (runAll selected).run ctx = (.error (failure.inPass pass.1), ctx') := by
    intro before after pass mid ctx' failure hsplit hbefore hfails
    rw [hsplit, runAll_of_carried hbefore, runAll_cons_error hfails]
  constructor
  · rintro rfl
    rcases runAll_cases selected ctx with
      ⟨ctx', hall⟩ | ⟨before, pass, after, mid, failure, ctx', hsplit, hbefore, hfails⟩
    · rw [hfinished hall]
      exact .finished hall
    · rw [hfailed hsplit hbefore hfails]
      exact .failed hsplit hbefore hfails ((reportedAs_iff ..).2 rfl)
  · rintro (hall | ⟨hsplit, hbefore, hfails, hreported⟩)
    · rw [hfinished hall]
    · rw [hfailed hsplit hbefore hfails, (reportedAs_iff ..).1 hreported]

end Work

/-! ## The record -/

/-- Does a pass leave the record of completed passes alone? -/
def Pass.LeavesRecord (pass : Pass) : Prop :=
  ∀ ctx, (pass.action.run ctx).2.report.completed = ctx.report.completed

theorem Carried.completed_eq {passes : List (String × Pass)} {ctx ctx' : Context}
    (h : Carried passes ctx ctx') (hpasses : ∀ pass ∈ passes, pass.2.LeavesRecord) :
    ctx'.report.completed = ctx.report.completed := by
  induction h with
  | nil ctx => rfl
  | @cons pass rest ctx mid ctx' hpass _ ih =>
      have hkept := hpasses pass List.mem_cons_self ctx
      rw [hpass] at hkept
      exact (ih fun p hp => hpasses p (List.mem_cons_of_mem _ hp)).trans hkept

/-- A run that fails leaves the record as it is, one that finishes adds the names of its
passes. -/
theorem RunsTo.completed_eq {selected : List (String × Pass)} {ctx : Context}
    {outcome : Except Failure (List String) × Context} (h : RunsTo selected ctx outcome)
    (hpasses : ∀ pass ∈ selected, pass.2.LeavesRecord) :
    outcome.2.report.completed = ctx.report.completed ++ outcome.1.toOption.getD [] := by
  cases h with
  | finished hall => exact congrArg (· ++ selected.map Prod.fst) (hall.completed_eq hpasses)
  | @failed before after pass mid ctx' failure reported hselected hbefore hpass _ =>
      have hkept := hpasses pass (by simp [hselected]) mid
      rw [hpass] at hkept
      have hmid := hbefore.completed_eq fun p hp => hpasses p (by simp [hselected, hp])
      exact (hkept.trans hmid).trans (List.append_nil _).symm

/-! ## The standard passes -/

namespace Work

/-- Are these the completed passes? -/
def Records (done : List String) (ctx : Context) : Prop :=
  ctx.report.completed = done

section Records

variable {done : List String}

theorem parse_records (text : String) : Keeps (Records done) (parse text) fun _ => True := by
  unfold parse
  refine .skip .get fun ctx => .skip (.ofExcept fun _ _ => trivial) fun t => ?_
  exact .skip (.modify fun _ h => h) fun _ => .pure trivial

theorem render_records : Keeps (Records done) render fun _ => True := by
  unfold render
  refine .bind .get fun ctx hctx => ?_
  split
  · exact .fail _
  · refine .skip (.ofExcept fun _ _ => trivial) fun text => ?_
    exact .skip (.set hctx) fun _ => .pure trivial

theorem ensureTree_records : Keeps (Records done) ensureTree fun _ => True := by
  unfold ensureTree
  refine .skip .get fun ctx => ?_
  split
  · exact .pure trivial
  · refine .skip (parse_records _) fun t => .skip (.modify fun _ h => h) fun _ => ?_
    exact .skip render_records fun _ => .pure trivial

theorem renameTree_records (table : Table String) (t : Tree) :
    Keeps (Records done) (renameTree table t) fun _ => True := by
  unfold renameTree
  refine .skip (.modify fun _ h => h) fun _ => .skip (.ofExcept fun _ _ => trivial) fun _ => ?_
  exact .skip (.modify fun _ h => h) fun _ => .pure trivial

theorem deshadow_records : Keeps (Records done) deshadow fun _ => True := by
  unfold deshadow
  refine .skip .get fun ctx => .skip (parse_records _) fun t => ?_
  refine .skip (.modify fun _ h => h) fun _ => ?_
  split
  · exact .fail _
  · refine .skip (.modify fun _ h => h) fun _ => .skip (.modify fun _ h => h) fun _ => ?_
    exact .skip (.modify fun _ h => h) fun _ => .skip render_records fun _ => .pure trivial

theorem mineRound_records (index : Nat) : Keeps (Records done) (mineRound index) fun _ => True := by
  unfold mineRound
  refine .skip .get fun ctx => .skip (.modify fun _ h => h) fun _ => ?_
  refine .skip (parse_records _) fun t => .skip (.ofExcept fun _ _ => trivial) fun declared => ?_
  refine .skip (renameTree_records _ _) fun _ => .skip render_records fun _ => ?_
  refine .skip (.modify fun _ h => h) fun _ => .skip (.modify fun _ h => h) fun _ => ?_
  exact .pure trivial

theorem mineRounds_records (left index : Nat) :
    Keeps (Records done) (mineRounds left index) fun _ => True := by
  induction left generalizing index with
  | zero =>
      unfold mineRounds
      exact .skip .get fun ctx => .ite (fun _ => .modify fun _ h => h) fun _ => .pure trivial
  | succ left ih =>
      unfold mineRounds
      refine .skip (mineRound_records index) fun renamed => .skip .get fun ctx => ?_
      exact .ite (fun _ => .modify fun _ h => h) fun _ => ih (index + 1)

theorem mine_records : Keeps (Records done) mine fun _ => True := by
  unfold mine
  exact .skip ensureTree_records fun _ => .skip .get fun ctx => mineRounds_records _ _

theorem frequency_records : Keeps (Records done) frequency fun _ => True := by
  unfold frequency
  refine .skip ensureTree_records fun t => .skip .get fun ctx => ?_
  refine .skip (.ofExcept fun _ _ => trivial) fun histogram =>
    .skip (.modify fun _ h => h) fun _ => ?_
  refine .skip (.ofExcept fun _ _ => trivial) fun declared =>
    .skip (.modify fun _ h => h) fun _ => ?_
  refine .skip (.modify fun _ h => h) fun _ => .skip (renameTree_records _ _) fun _ => ?_
  exact .skip (.modify fun _ h => h) fun _ => .skip render_records fun _ => .pure trivial

theorem fixups_records : Keeps (Records done) fixups fun _ => True := by
  unfold fixups
  exact .skip ensureTree_records fun _ => .modify fun _ h => h

end Records

/-- None of the standard passes touches the record. -/
theorem standardPasses_leaveRecord : ∀ pass ∈ standardPasses, pass.2.LeavesRecord := by
  simp only [standardPasses, List.forall_mem_cons]
  exact ⟨fun ctx => (deshadow_records ctx rfl).1, fun ctx => (mine_records ctx rfl).1,
    fun ctx => (frequency_records ctx rfl).1, fun ctx => (fixups_records ctx rfl).1,
    List.forall_mem_nil _⟩

end Work

/-- **Which passes run and what comes of it.**  Of passes registered in any way, a run
carries out the wanted ones, each once and in ascending order, up to the first that fails;
the record is extended by all their names, or left as it is after a failure. -/
theorem runPasses_exact (calls : List (String × Pass)) (skip only : List String) (ctx : Context) :
    ∃ selected, Selection calls skip only selected ∧
      (∀ outcome, (Work.runPasses (Table.ofList calls) skip only).run ctx = outcome ↔
        RunsTo selected ctx outcome) ∧
      ((∀ pass ∈ selected, pass.2.LeavesRecord) →
        ∀ outcome, (Work.runPasses (Table.ofList calls) skip only).run ctx = outcome →
          outcome.2.report.completed = ctx.report.completed ++ outcome.1.toOption.getD []) := by
  have hruns := Work.runPasses_eq_iff (Table.ofList calls) skip only ctx
  refine ⟨_, Passes.selection_selected calls skip only, hruns, fun hpasses outcome hrun => ?_⟩
  exact ((hruns outcome).1 hrun).completed_eq hpasses

/-- The standard passes but one: the source is no program, so the first pass fails and
nothing is recorded. -/
theorem runPasses_exact_standard :
    ∃ selected, Selection standardPasses [" mine ", ""] [""] selected ∧
      ∃ failure ctx, RunsTo selected { source := "var" } (.error failure, ctx) ∧
        ctx.report.completed = [] := by
  obtain ⟨selected, hselection, hruns, hrecord⟩ :=
    runPasses_exact standardPasses [" mine ", ""] [""] { source := "var" }
  have hstandard : Table.ofList standardPasses = standardPasses := Table.ofList_of_nodup (by decide)
  rw [hstandard] at hruns hrecord
  have hleave : ∀ pass ∈ selected, pass.2.LeavesRecord := by
    intro pass hpass
    obtain ⟨before, after, hcalls, -⟩ := ((hselection.mem_iff pass).1 hpass).1
    exact Work.standardPasses_leaveRecord pass (by rw [hcalls]; simp)
  have hfails : ((Work.runPasses standardPasses [" mine ", ""] [""]).run
      { source := "var" }).1.toOption = none := by
    rw [Work.runPasses_run, Passes.selected, standardPasses_inOrder]
    decide +kernel
  rcases hrun : (Work.runPasses standardPasses [" mine ", ""] [""]).run { source := "var" } with
    ⟨failure | names, ctx⟩
  · exact ⟨selected, hselection, failure, ctx, (hruns _).1 hrun, hrecord hleave _ hrun⟩
  · rw [hrun] at hfails
    cases hfails

end NameRecovery
