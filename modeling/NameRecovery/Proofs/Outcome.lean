import NameRecovery.Proofs.Grammar.Leading.Statement
import NameRecovery.Proofs.Labels
import NameRecovery.Proofs.Mining.Candidates
import NameRecovery.Proofs.Pipeline
import NameRecovery.Proofs.Printer.Front
import NameRecovery.Proofs.Scope.Tally
import NameRecovery.Proofs.Scope.TopLevel

/-!
# Finished runs

A run that has come to its end leaves a context whose parts agree: the text is the one
its program is printed as, and the output is made of the text.

* `Work.Ends` — what holds of the context when the work has been done;
* `Context.Settled` — the text is that of the program, and the output is the text;
* `Work.runSelected_ends` — what the selected passes leave, each going by the one before;
* `Lasts` — what a program keeps that is printed and parsed again;
* `runOn_outcome` — what every finished run leaves.
-/

namespace NameRecovery

namespace Work

variable {α β : Type}

/-- Does the work, once it is done, leave a context with `Q` when it found one with
`P`? -/
def Ends (P : Context → Prop) (w : Work α) (Q : α → Context → Prop) : Prop :=
  ∀ ctx a ctx', P ctx → w.run ctx = (.ok a, ctx') → Q a ctx'

namespace Ends

variable {P P' : Context → Prop} {w : Work α} {f : α → Work β} {Q Q' : α → Context → Prop}
  {R : β → Context → Prop}

theorem pure {a : α} (h : ∀ ctx, P ctx → Q a ctx) : Ends P (pure a) Q := by
  intro ctx b ctx' hctx hrun
  obtain ⟨hvalue, rfl⟩ := Prod.mk.inj hrun
  obtain rfl := Except.ok.inj hvalue
  exact h ctx hctx

theorem fail (failure : Failure) : Ends P (Work.fail failure) Q := by
  intro ctx a ctx' _ hrun
  cases (Prod.mk.inj hrun).1

theorem bind (hw : Ends P w Q) (hf : ∀ a, Ends (Q a) (f a) R) : Ends P (w >>= f) R := by
  intro ctx b ctx' hctx hrun
  rw [run_bind] at hrun
  rcases hfirst : w.run ctx with ⟨failure | a, ctx₁⟩ <;> rw [hfirst] at hrun
  · cases (Prod.mk.inj hrun).1
  · exact hf a ctx₁ b ctx' (hw ctx a ctx₁ hctx hfirst) hrun

theorem start (h : Ends P w Q) (hP : ∀ ctx, P' ctx → P ctx) : Ends P' w Q :=
  fun ctx a ctx' hctx hrun => h ctx a ctx' (hP ctx hctx) hrun

theorem mono (h : Ends P w Q) (hQ : ∀ a ctx, Q a ctx → Q' a ctx) : Ends P w Q' :=
  fun ctx a ctx' hctx hrun => hQ a ctx' (h ctx a ctx' hctx hrun)

/-- What is known before the work and is not about the context. -/
theorem knowing {known : Prop} (h : known → Ends P w Q) :
    Ends (fun ctx => P ctx ∧ known) w Q :=
  fun ctx a ctx' hctx hrun => h hctx.2 ctx a ctx' hctx.1 hrun

/-- Work that starts by looking at the context. -/
theorem read {f : Context → Work β} (hf : ∀ ctx, P ctx → Ends (· = ctx) (f ctx) R) :
    Ends P (get >>= f) R :=
  fun ctx b ctx' hctx hrun => hf ctx hctx ctx b ctx' rfl hrun

/-- Work in a context of which something is known. -/
theorem here {ctx : Context} (hctx : P ctx) (h : Ends P w Q) : Ends (· = ctx) w Q :=
  h.start fun _ heq => heq ▸ hctx

theorem modify {change : Context → Context} {Q : Unit → Context → Prop}
    (h : ∀ ctx, P ctx → Q () (change ctx)) : Ends P (modify change) Q := by
  intro ctx a ctx' hctx hrun
  obtain ⟨-, rfl⟩ := Prod.mk.inj hrun
  exact h ctx hctx

theorem ofExcept {x : Except Failure α} (hf : ∀ a, x = .ok a → Ends P (f a) R) :
    Ends P (ofExcept x >>= f) R := by
  cases x with
  | ok a => exact hf a rfl
  | error failure =>
      intro ctx b ctx' _ hrun
      cases (Prod.mk.inj hrun).1

/-- A tree is read, in which there is no fault. -/
theorem ofFault {x : Except Fault α} (hf : ∀ a, x = .ok a → Ends P (f a) R) :
    Ends P (Work.ofExcept (liftFault x) >>= f) R := by
  refine ofExcept fun a ha => hf a ?_
  cases x with
  | ok b => exact congrArg _ (Except.ok.inj ha)
  | error fault => cases ha

theorem ite {c : Prop} [Decidable c] {v w : Work α} (hv : c → Ends P v Q)
    (hw : ¬ c → Ends P w Q) : Ends P (if c then v else w) Q := by
  split
  · exact hv ‹c›
  · exact hw ‹¬ c›

end Ends

end Work

/-! ## Contexts whose parts agree -/

/-- Are the source and the settings those of the run? -/
def Context.Given (source : String) (config : Config) (ctx : Context) : Prop :=
  ctx.source = source ∧ ctx.config = config

/-- Is the tree the program of the run? -/
def Context.Holding (source : String) (config : Config) (t : Tree) (ctx : Context) : Prop :=
  ctx.Given source config ∧ ctx.tree = some t

/-- Has nothing been done to the context yet? -/
structure Context.Untouched (source : String) (config : Config) (ctx : Context) : Prop where
  given : ctx.Given source config
  noTree : ctx.tree = none
  noText : ctx.text = ""
  noOutput : ctx.output = ""

/-- Is there a program of which `K` holds, and is its text the one it is printed as? -/
structure Context.Printed (source : String) (config : Config) (K : Tree → Prop)
    (ctx : Context) : Prop where
  given : ctx.Given source config
  printed : ∃ t, ctx.tree = some t ∧ t.render config.indent = .ok ctx.text ∧ K t

/-- Is that text the output as well? -/
structure Context.Settled (source : String) (config : Config) (K : Tree → Prop)
    (ctx : Context) : Prop extends Context.Printed source config K ctx where
  output_eq : ctx.output = ctx.text

theorem Context.Settled.mono {source : String} {config : Config} {K K' : Tree → Prop}
    {ctx : Context} (h : ctx.Settled source config K) (hK : ∀ t, K t → K' t) :
    ctx.Settled source config K' := by
  obtain ⟨t, htree, htext, ht⟩ := h.printed
  exact ⟨⟨h.given, t, htree, htext, hK t ht⟩, h.output_eq⟩

theorem Context.Settled.noted {source : String} {config : Config} {K : Tree → Prop}
    {ctx : Context} (h : ctx.Settled source config K) (report : Report) (trace : List Remark) :
    { ctx with report, trace }.Settled source config K :=
  ⟨⟨h.given, h.printed⟩, h.output_eq⟩

/-- Can a pass start here? -/
def Context.Ready (source : String) (config : Config) (K : Tree → Prop) (ctx : Context) : Prop :=
  ctx.Untouched source config ∨ ctx.Settled source config K

/-- Has a pass left a program of which `K` holds, or has none been done yet? -/
def Context.Stands (source : String) (config : Config) (K : Tree → Prop) (started : Bool)
    (ctx : Context) : Prop :=
  if started then ctx.Settled source config K else ctx.Untouched source config

theorem Context.Stands.ready {source : String} {config : Config} {K : Tree → Prop}
    {started : Bool} {ctx : Context} (h : ctx.Stands source config K started) :
    ctx.Ready source config K := by
  cases started with
  | true => exact .inr h
  | false => exact .inl h

theorem Context.Stands.mono {source : String} {config : Config} {K K' : Tree → Prop}
    {started : Bool} {ctx : Context} (h : ctx.Stands source config K started)
    (hK : ∀ t, K t → K' t) : ctx.Stands source config K' started := by
  cases started with
  | true => exact Settled.mono h hK
  | false => exact h

namespace Work

open Context

variable {source : String} {config : Config} {K : Tree → Prop}

section Steps

variable {P : Context → Prop}

/-- Remarks change nothing that matters. -/
theorem remark_ends (h : ∀ ctx trace, P ctx → P { ctx with trace }) (remarks : List Remark) :
    Ends P (remark remarks) fun _ => P :=
  .modify fun ctx hctx => h ctx _ hctx

/-- Nor do reports. -/
theorem changeReport_ends (h : ∀ ctx report, P ctx → P { ctx with report })
    (change : Report → Report) : Ends P (changeReport change) fun _ => P :=
  .modify fun ctx hctx => h ctx _ hctx

end Steps

theorem parse_ends (text : String) :
    Ends (Given source config) (parse text) fun t ctx =>
      ctx.Given source config ∧ parseProgram config.goal text = .ok t := by
  unfold parse
  refine .read fun ctx hctx => .here hctx ?_
  refine .ofExcept fun t ht => .bind (remark_ends (fun _ _ h => h) _) fun _ => .pure fun _ h => ?_
  exact ⟨h, hctx.2 ▸ ht⟩

theorem setTree_ends (t : Tree) :
    Ends (Given source config) (setTree t) fun _ => Holding source config t :=
  .modify fun _ hctx => ⟨hctx, rfl⟩

/-- The program is printed. -/
theorem render_ends (t : Tree) :
    Ends (Holding source config t) render fun _ => Settled source config (· = t) := by
  unfold render
  refine .read fun ctx ⟨hgiven, htree⟩ => ?_
  simp only [htree]
  refine .ofFault fun text htext => ?_
  intro ctx' text' ctx'' _ hrun
  obtain ⟨-, rfl⟩ := Prod.mk.inj hrun
  exact ⟨⟨hgiven, t, rfl, hgiven.2 ▸ htext, rfl⟩, rfl⟩

theorem render_keeps {t : Tree} (ht : K t) :
    Ends (Holding source config t) render fun _ => Settled source config K := by
  refine (render_ends t).mono fun _ _ h => h.mono ?_
  rintro _ rfl
  exact ht

theorem renameTree_ends {t : Tree} (ht : t.isProgram = true) (table : Table String) :
    Ends (Given source config) (renameTree table t) fun _ =>
      Holding source config (t.renamed table.spell) := by
  obtain ⟨-, count, hrename⟩ := rename_program ht table
  unfold renameTree
  rw [hrename]
  refine .bind (setTree_ends _) fun _ => .ofFault fun _ _ => ?_
  exact .bind (remark_ends (fun _ _ h => h) _) fun _ => .pure fun _ h => h

/-! ## The passes -/

section Passes

theorem Ready.given {ctx : Context} (h : ctx.Ready source config K) : ctx.Given source config := by
  rcases h with h | h
  · exact h.given
  · exact h.given

/-- The program of the source, with a name of its own for every binding. -/
theorem deshadow_ends (hresolved : ∀ t res, parseProgram config.goal source = .ok t →
      Scope.resolve t = .ok res → K res.tree) :
    Ends (Given source config) deshadow fun _ => Settled source config K := by
  unfold deshadow
  refine .read fun ctx hctx => ?_
  rw [hctx.1]
  refine .bind (.here hctx (parse_ends source)) fun t => ?_
  refine .knowing fun ht => .bind (setTree_ends t) fun _ => ?_
  split
  · exact .fail _
  · rename_i res hres
    refine .bind (remark_ends (fun _ _ h => h) _) fun _ => ?_
    refine .bind ((setTree_ends res.tree).start fun _ h => h.1) fun _ => ?_
    refine .bind (changeReport_ends (fun _ _ h => h) _) fun _ => ?_
    exact .bind (render_keeps (hresolved t res ht hres)) fun _ => .pure fun _ h => h

/-- There is a program afterwards, the one of the source if there was none before. -/
theorem ensureTree_ends (hparsed : ∀ t, parseProgram config.goal source = .ok t → K t) :
    Ends (Ready source config K) ensureTree fun t =>
      Settled source config fun t' => t' = t ∧ K t := by
  unfold ensureTree
  refine .read fun ctx hctx => ?_
  rcases hctx with hctx | hctx
  · simp only [hctx.noTree, hctx.given.1]
    refine .bind (.here hctx.given (parse_ends source)) fun t => ?_
    refine .knowing fun ht => .bind (setTree_ends t) fun _ => .bind (render_ends t) fun _ => ?_
    exact .pure fun _ h => h.mono fun _ heq => ⟨heq, hparsed t ht⟩
  · obtain ⟨t, htree, htext, ht⟩ := hctx.printed
    simp only [htree]
    refine .pure fun ctx' h => ?_
    subst h
    exact ⟨⟨hctx.given, t, htree, htext, rfl, ht⟩, hctx.output_eq⟩

theorem ensureTree_settles (hparsed : ∀ t, parseProgram config.goal source = .ok t → K t) :
    Ends (Ready source config K) ensureTree fun _ => Settled source config K := by
  refine (ensureTree_ends hparsed).mono fun t _ h => h.mono ?_
  rintro _ ⟨rfl, ht⟩
  exact ht

theorem mineRound_ends (hmined : ∀ t text t' declared, K t →
      t.render config.indent = .ok text → parseProgram config.goal text = .ok t' →
      t'.declaredNames = .ok declared →
      K (t'.renamed (minedTable config.separator text declared).spell))
    (index : Nat) :
    Ends (Settled source config K) (mineRound index) fun _ => Settled source config K := by
  unfold mineRound
  refine .read fun ctx hctx => ?_
  obtain ⟨t, htree, htext, ht⟩ := hctx.printed
  refine .here hctx.given ?_
  refine .bind (remark_ends (fun _ _ h => h) _) fun _ => .bind (parse_ends ctx.text) fun t' => ?_
  refine .knowing fun ht' => .ofFault fun declared hdeclared => ?_
  have hnames := hmined t ctx.text t' declared ht htext ht' hdeclared
  rw [hctx.given.2]
  refine .bind (renameTree_ends (isProgram_of_parseProgram ht') _) fun _ => ?_
  refine .bind (render_keeps hnames) fun _ => ?_
  refine .bind (changeReport_ends (fun _ _ h => h.noted _ _) _) fun _ => ?_
  exact .bind (remark_ends (fun _ _ h => h.noted _ _) _) fun _ => .pure fun _ h => h

theorem mineRounds_ends {left : Nat} (hround : left ≠ 0 → ∀ index,
      Ends (Settled source config K) (mineRound index) fun _ => Settled source config K)
    (index : Nat) :
    Ends (Settled source config K) (mineRounds left index) fun _ => Settled source config K := by
  induction left generalizing index with
  | zero =>
      unfold mineRounds
      refine .read fun ctx hctx => .here hctx ?_
      exact .ite (fun _ => changeReport_ends (fun _ _ h => h.noted _ _) _) fun _ =>
        .pure fun _ h => h
  | succ left ih =>
      unfold mineRounds
      have hround := hround left.succ_ne_zero
      refine .bind (hround index) fun renamed => .read fun ctx hctx => .here hctx ?_
      refine .ite (fun _ => remark_ends (fun _ _ h => h.noted _ _) _) fun _ => ?_
      exact ih (fun _ => hround) (index + 1)

/-- The source is parsed if need be, and mined in rounds. -/
theorem mine_ends (hparsed : ∀ t, parseProgram config.goal source = .ok t → K t)
    (hround : config.roundLimit ≠ 0 → ∀ index,
      Ends (Settled source config K) (mineRound index) fun _ => Settled source config K) :
    Ends (Ready source config K) mine fun _ => Settled source config K := by
  unfold mine
  refine .bind (ensureTree_settles hparsed) fun _ => .read fun ctx hctx => ?_
  rw [hctx.given.2]
  exact .here hctx (mineRounds_ends hround 1)

theorem frequency_ends {K' : Tree → Prop} (hprogram : ∀ t, K t → t.isProgram = true)
    (hparsed : ∀ t, parseProgram config.goal source = .ok t → K t)
    (hnamed : ∀ t histogram declared, K t → profile config.stoplist t = .ok histogram →
      t.declaredNames = .ok declared →
      K' (t.renamed (contextTable config.separator histogram declared).spell)) :
    Ends (Ready source config K) frequency fun _ => Settled source config K' := by
  unfold frequency
  refine .bind (ensureTree_ends hparsed) fun t => .read fun ctx hctx => ?_
  obtain ⟨t', htree, htext, rfl, ht⟩ := hctx.printed
  refine .here hctx.given ?_
  rw [hctx.given.2]
  refine .ofFault fun histogram hhistogram => .bind (remark_ends (fun _ _ h => h) _) fun _ => ?_
  refine .ofFault fun declared hdeclared => .bind (remark_ends (fun _ _ h => h) _) fun _ => ?_
  refine .bind (changeReport_ends (fun _ _ h => h) _) fun _ => ?_
  refine .bind (renameTree_ends (hprogram t' ht) _) fun _ => ?_
  refine .bind (changeReport_ends (fun _ _ h => h) _) fun _ => ?_
  refine .bind (render_keeps (hnamed t' histogram declared ht hhistogram hdeclared)) fun _ => ?_
  exact .pure fun _ h => h

/-- The output of a run over a text that has been printed. -/
def finalText (config : Config) (fixed : Bool) (text : String) : String :=
  if fixed && config.nameFunctions then FunctionNames.nameAll config.separator text else text

theorem fixups_ends (hparsed : ∀ t, parseProgram config.goal source = .ok t → K t) :
    Ends (Ready source config K) fixups fun _ ctx =>
      ctx.Printed source config K ∧ ctx.output = finalText config true ctx.text := by
  unfold fixups
  refine .bind (ensureTree_settles hparsed) fun _ => ?_
  refine .modify fun ctx hctx => ⟨⟨hctx.given, hctx.printed⟩, ?_⟩
  simp only [finalText, Bool.true_and, hctx.given.2]

end Passes

/-! ## Sequences of passes -/

theorem runPass_ends {P Q : Context → Prop} (pass : String × Pass)
    (h : Ends P pass.2.action fun _ => Q) (hQ : ∀ ctx trace, Q ctx → Q { ctx with trace }) :
    Ends P (runPass pass) fun _ => Q := by
  unfold runPass
  refine .bind (fun ctx a ctx' hctx hrun => ?_) fun _ => remark_ends hQ _
  have hsame : pass.2.action.run ctx = (.ok a, ctx') := by
    change ((pass.2.action.run ctx).1.mapError _, (pass.2.action.run ctx).2) = _ at hrun
    rcases hpass : pass.2.action.run ctx with ⟨failure | b, ctx₁⟩ <;> rw [hpass] at hrun
    · cases (Prod.mk.inj hrun).1
    · exact hrun
  exact h ctx a ctx' hctx hsame

/-- A pass before others, if it is selected. -/
theorem runSelected_cons {K' : Tree → Prop} {started : Bool} {pass : String × Pass}
    {rest : List (String × Pass)} {selected : String × Pass → Bool} {R : Unit → Context → Prop}
    (hK : ∀ t, K t → K' t)
    (hpass : selected pass = true →
      Ends (Ready source config K) pass.2.action fun _ => Settled source config K')
    (hrest : Ends (Stands source config K' (started || selected pass))
      (runAll (rest.filter selected)) R) :
    Ends (Stands source config K started) (runAll ((pass :: rest).filter selected)) R := by
  cases hselected : selected pass with
  | true =>
      rw [List.filter_cons_of_pos hselected]
      rw [hselected, Bool.or_true] at hrest
      have hdone := runPass_ends pass (hpass hselected) fun _ trace h => h.noted _ trace
      exact .bind (hdone.start fun _ h => h.ready) fun _ => hrest
  | false =>
      rw [List.filter_cons_of_neg (by simp [hselected])]
      rw [hselected, Bool.or_false] at hrest
      exact hrest.start fun _ h => h.mono hK

end Work

/-- Is a pass of a run selected? -/
def isChosen (skip only : List String) (name : String) : Bool :=
  Passes.isSelected (Passes.meant skip) (Passes.meant only) name

/-- Does a run consist of a pass at least? -/
def choosesPass (skip only : List String) : Bool :=
  standardPasses.any fun pass => isChosen skip only pass.1

/-- What a finished run leaves: nothing if no pass was selected, and else a program with
its text and the output made of it. -/
structure Context.Finished (source : String) (config : Config) (skip only : List String)
    (K : Tree → Prop) (ctx : Context) : Prop where
  idle : choosesPass skip only = false → ctx.Untouched source config
  printed : choosesPass skip only = true → ctx.Printed source config K
  output_eq : ctx.output = Work.finalText config (isChosen skip only "fixups") ctx.text

section Runs

open Context Work

variable {source : String} {config : Config} {K : Tree → Prop} {skip only : List String}

theorem Context.Finished.of_settled {ctx : Context} (h : ctx.Settled source config K)
    (hchosen : choosesPass skip only = true) (hfixups : isChosen skip only "fixups" = false) :
    ctx.Finished source config skip only K where
  idle hidle := by rw [hchosen] at hidle; cases hidle
  printed _ := h.toPrinted
  output_eq := by rw [hfixups, h.output_eq]; rfl

theorem Context.Finished.of_untouched {ctx : Context} (h : ctx.Untouched source config)
    (hidle : choosesPass skip only = false) (hfixups : isChosen skip only "fixups" = false) :
    ctx.Finished source config skip only K where
  idle _ := h
  printed hchosen := by rw [hidle] at hchosen; cases hchosen
  output_eq := by rw [hfixups, h.noText, h.noOutput]; rfl

theorem Context.Finished.noted {ctx : Context} (h : ctx.Finished source config skip only K)
    (report : Report) : { ctx with report }.Finished source config skip only K where
  idle hidle :=
    let hctx := h.idle hidle
    ⟨hctx.given, hctx.noTree, hctx.noText, hctx.noOutput⟩
  printed hchosen := ⟨(h.printed hchosen).given, (h.printed hchosen).printed⟩
  output_eq := h.output_eq

/-- The last pass, if it is selected. -/
theorem runFixups_ends (hparsed : ∀ t, parseProgram config.goal source = .ok t → K t)
    {started : Bool} (hstarted : choosesPass skip only = (started || isChosen skip only "fixups")) :
    Ends (Stands source config K started)
      (runAll ([("fixups", ⟨40, Work.fixups⟩)].filter fun pass => isChosen skip only pass.1))
      fun _ => Finished source config skip only K := by
  cases hfixups : isChosen skip only "fixups" with
  | false =>
      rw [hfixups, Bool.or_false] at hstarted
      rw [List.filter_cons_of_neg (by simp [hfixups])]
      refine .pure fun ctx hctx => ?_
      cases started with
      | true => exact .of_settled hctx hstarted hfixups
      | false => exact .of_untouched hctx hstarted hfixups
  | true =>
      rw [hfixups, Bool.or_true] at hstarted
      rw [List.filter_cons_of_pos (by simp [hfixups])]
      have hpass := runPass_ends ("fixups", ⟨40, Work.fixups⟩) (fixups_ends hparsed)
        fun _ _ h => ⟨⟨h.1.given, h.1.printed⟩, h.2⟩
      refine .bind (hpass.start fun ctx hctx => hctx.ready) fun _ => .pure fun ctx hctx => ?_
      refine ⟨fun hidle => ?_, fun _ => hctx.1, ?_⟩
      · rw [hstarted] at hidle
        cases hidle
      · rw [hfixups]
        exact hctx.2

/-- A run over the selected passes, where each of those that change the program leaves it
with its text.  `K` holds as long as the program may be parsed again, and then `K'`. -/
theorem runSelected_ends {K' : Tree → Prop} (hK : ∀ t, K t → K' t)
    (hparsed : ∀ t, parseProgram config.goal source = .ok t → K t)
    (hdeshadow : Ends (Ready source config K) deshadow fun _ => Settled source config K)
    (hmine : isChosen skip only "mine" = true →
      Ends (Ready source config K) mine fun _ => Settled source config K)
    (hfrequency : Ends (Ready source config K) frequency fun _ => Settled source config K') :
    Ends (Untouched source config)
      (runAll (standardPasses.filter fun pass => isChosen skip only pass.1)) fun _ =>
        Finished source config skip only K' := by
  have hstart : ∀ ctx : Context, ctx.Untouched source config → ctx.Stands source config K false :=
    fun _ h => h
  have hlast : choosesPass skip only = ((((false || isChosen skip only "deshadow") ||
      isChosen skip only "mine") || isChosen skip only "frequency") ||
      isChosen skip only "fixups") := by
    simp [choosesPass, standardPasses, Bool.or_assoc]
  refine Ends.start ?_ hstart
  unfold standardPasses
  refine runSelected_cons (fun _ => id) (fun _ => hdeshadow) ?_
  refine runSelected_cons (fun _ => id) hmine ?_
  refine runSelected_cons hK (fun _ => hfrequency) ?_
  exact runFixups_ends (fun t ht => hK t (hparsed t ht)) hlast

theorem runOn_finished {K' : Tree → Prop} (hK : ∀ t, K t → K' t)
    (hparsed : ∀ t, parseProgram config.goal source = .ok t → K t)
    (hdeshadow : Ends (Ready source config K) deshadow fun _ => Settled source config K)
    (hmine : isChosen skip only "mine" = true →
      Ends (Ready source config K) mine fun _ => Settled source config K)
    (hfrequency : Ends (Ready source config K) frequency fun _ => Settled source config K')
    {ctx : Context} (h : runOn source config skip only = (.ok (), ctx)) :
    ctx.Finished source config skip only K' ∧ ctx.report.outputLength = ctx.output.length := by
  have hrun : Ends (Untouched source config) (runPasses standardPasses skip only) fun _ =>
      Finished source config skip only K' := by
    unfold runPasses
    rw [standardPasses_inOrder]
    refine .bind (runSelected_ends hK hparsed hdeshadow hmine hfrequency) fun _ => ?_
    exact .bind (changeReport_ends (fun _ _ h => h.noted _) _) fun _ => .pure fun _ h => h
  unfold runOn at h
  rcases hpasses : (runPasses standardPasses skip only).run { source, config } with
    ⟨failure | names, ctx'⟩
  · simp only [hpasses] at h
    cases (Prod.mk.inj h).1
  · simp only [hpasses] at h
    obtain ⟨-, rfl⟩ := Prod.mk.inj h
    have hfinished := hrun _ names ctx' ⟨⟨rfl, rfl⟩, rfl, rfl, rfl⟩ hpasses
    exact ⟨hfinished.noted _, rfl⟩

end Runs

/-! ## Empty outputs -/

/-- Resolving spells names anew, each with something behind it if it changes. -/
theorem exists_respell_of_resolve {t : Tree} (h : t.isProgram = true) {res : Scope.Resolution}
    (hres : Scope.resolve t = .ok res) :
    ∃ spell, res.tree = t.respell spell ∧ ∀ path name, ∃ more, spell path name = name ++ more := by
  obtain ⟨res', dry, real, hruns⟩ := Scope.runs_program h
  obtain rfl := Except.ok.inj (hruns.resolved.symm.trans hres)
  have hformed := Scope.isFormed_of_isProgram h
  obtain ⟨names, hnames⟩ : ∃ names, Scope.programNames t = .ok names := by
    obtain ⟨fields, rfl, -⟩ := Scope.exists_fields_of_isProgram h
    obtain ⟨names, hnames, -⟩ := Scope.events_program hformed
    exact ⟨names, hnames⟩
  refine ⟨fun path name =>
    if (path, name) ∈ t.occurrences then real.spelling path name else name, ?_, ?_⟩
  · rw [hruns.tree_eq_respell hformed]
    refine Tree.respell_congr hformed fun o ho => ?_
    exact (if_pos (c := (o.1, o.2) ∈ t.occurrences) ho).symm
  · intro path name
    dsimp only
    split
    · rename_i hocc
      by_cases hsame : real.spelling path name = name
      · exact ⟨"", by rw [hsame, String.append_empty]⟩
      · have hrename := (hruns.respelled_iff h hocc).2 hsame
        obtain ⟨count, hcount⟩ := hruns.numbers h hnames name _ hrename
        exact ⟨toString count, hcount⟩
    · exact ⟨"", by rw [String.append_empty]⟩

/-- The statements of a program. -/
def Tree.statements (t : Tree) : List Tree :=
  match t.get "body" with
  | .list items => items
  | _ => []

/-- A program as a node: its goal and its statements. -/
def programNode (goal : String) (body : List Tree) : Tree :=
  .node "Program" [("sourceType", .text goal), ("body", .list body)]

@[simp] theorem statements_programNode (goal : String) (body : List Tree) :
    (programNode goal body).statements = body := rfl

theorem exists_programNode {t : Tree} (h : t.isProgram = true) :
    ∃ goal body, t = programNode goal body := by
  obtain ⟨fields, rfl, hformed⟩ := Scope.exists_fields_of_isProgram h
  obtain _ | ⟨hgoal, _ | ⟨hbody, ⟨⟩⟩⟩ := Tree.filled_of_isFormed hformed rfl
  obtain ⟨body, rfl, -⟩ := Tree.accepts_many.1 hbody.1
  obtain ⟨goal, rfl⟩ := Tree.accepts_text.1 hgoal.1
  exact ⟨goal, body, rfl⟩

/-- Spelling names anew keeps the number of statements. -/
theorem length_statements_respell {t : Tree} (h : t.isProgram = true) (spell : Tree.Spelling) :
    (t.respell spell).statements.length = t.statements.length := by
  obtain ⟨goal, body, rfl⟩ := exists_programNode h
  have hrespell : (programNode goal body).respell spell = programNode goal
      (Tree.respellItems spell ((programNode goal body).names "body") [] "body" 0 body) := rfl
  rw [hrespell, statements_programNode, statements_programNode, Tree.respellItems_eq,
    List.length_map, List.length_zipIdx]

/-- A program is printed as nothing if it has no statement. -/
theorem render_eq_empty_iff {t : Tree} (h : t.isProgram = true) {indent text : String}
    (htext : t.render indent = .ok text) : text = "" ↔ t.statements = [] := by
  obtain ⟨goal, body, rfl⟩ := exists_programNode h
  cases body with
  | nil =>
      obtain rfl := Except.ok.inj htext
      exact ⟨fun _ => rfl, fun _ => rfl⟩
  | cons first more =>
      obtain ⟨depth, line, rest, -, rfl⟩ := render_first rfl text htext
      simp

theorem replaceAll_eq_nil_iff {α : Type} {recogniser : Text.Recogniser α}
    {replacement : α → List Char} (h : ∀ found, replacement found ≠ []) (cs : List Char) :
    Text.replaceAll recogniser replacement cs = [] ↔ cs = [] := by
  cases cs with
  | nil => simp [Text.replaceAll, Text.pieces, Text.piecesFrom]
  | cons c cs =>
      rw [Text.replaceAll, Text.pieces, Text.piecesFrom]
      split <;> simp [h]

theorem nameAll_eq_empty_iff (sigil text : String) :
    FunctionNames.nameAll sigil text = "" ↔ text = "" := by
  rw [FunctionNames.nameAll, ← String.toList_inj]
  simp [FunctionNames.nameBehind, replaceAll_eq_nil_iff]

theorem finalText_eq_empty_iff (config : Config) (fixed : Bool) (text : String) :
    Work.finalText config fixed text = "" ↔ text = "" := by
  unfold Work.finalText
  split
  · exact nameAll_eq_empty_iff _ _
  · exact Iff.rfl

/-- Does a run mine for names in the printed text? -/
def mines (config : Config) (skip only : List String) : Bool :=
  isChosen skip only "mine" && config.roundLimit != 0

section Counting

open Context Work

variable {source : String} {config : Config} {skip only : List String} {ctx : Context}

theorem parseProgram_of_parse {goal : Grammar.Goal} {text : String} {t : Tree}
    (h : Grammar.parse goal text = .ok t) : parseProgram goal text = .ok t := by
  rw [parseProgram, h]

theorem parse_of_parseProgram {goal : Grammar.Goal} {text : String} {t : Tree}
    (h : parseProgram goal text = .ok t) : Grammar.parse goal text = .ok t := by
  unfold parseProgram at h
  split at h
  · rename_i hparse
    rw [hparse, Except.ok.inj h]
  · split at h <;> cases h

/-- Has the program a statement, and does its text start with a token if it is to be parsed
again? -/
structure Lasts (again : Bool) (t : Tree) : Prop where
  statements : t.statements ≠ []
  opened : again = true → Printer.Opened t

/-- Is it a program that lasts if the one of the source does? -/
def KeepsLasting (source : String) (config : Config) (skip only : List String) (t : Tree) : Prop :=
  t.isProgram = true ∧ ∀ t₀, parseProgram config.goal source = .ok t₀ →
    Lasts (mines config skip only) t₀ → Lasts (mines config skip only) t

/-- Is it a program that has a statement then? -/
def KeepsStatements (source : String) (config : Config) (skip only : List String) (t : Tree) :
    Prop :=
  t.isProgram = true ∧ ∀ t₀, parseProgram config.goal source = .ok t₀ →
    Lasts (mines config skip only) t₀ → t.statements ≠ []

theorem keepsLasting_of_parse (t : Tree) (ht : parseProgram config.goal source = .ok t) :
    KeepsLasting source config skip only t := by
  refine ⟨isProgram_of_parseProgram ht, fun t₀ ht₀ hlasts => ?_⟩
  rw [Except.ok.inj (ht.symm.trans ht₀)]
  exact hlasts

theorem statements_respell_ne_nil {t : Tree} (h : t.isProgram = true) (hsome : t.statements ≠ [])
    (spell : Tree.Spelling) : (t.respell spell).statements ≠ [] := by
  intro hnone
  have hlength := length_statements_respell h spell
  rw [hnone, List.length_nil] at hlength
  exact hsome (List.eq_nil_of_length_eq_zero hlength.symm)

theorem KeepsLasting.keepsStatements {t : Tree} (h : KeepsLasting source config skip only t) :
    KeepsStatements source config skip only t :=
  ⟨h.1, fun t₀ ht₀ hlasts => (h.2 t₀ ht₀ hlasts).statements⟩

theorem KeepsStatements.respell {t : Tree} (h : KeepsStatements source config skip only t)
    (spell : Tree.Spelling) : KeepsStatements source config skip only (t.respell spell) :=
  ⟨Tree.isProgram_respell h.1, fun t₀ ht₀ hlasts =>
    statements_respell_ne_nil h.1 (h.2 t₀ ht₀ hlasts) spell⟩

/-! ### The names the text of a program starts with -/

theorem isPlainStart_of_isPlainName {name : String} (h : Mining.IsPlainName name) :
    Source.isPlainStart name = true := by
  obtain ⟨first, rest, hname, hfirst, -⟩ := h
  have hvalue : Mining.isValueChar first = true :=
    Mining.isValueChar_of_isNameChar (Mining.isNameChar_of_isNameStart hfirst)
  have hplain : first ≠ '\\' := by rintro rfl; cases hfirst
  have hstart : Source.isNameStart first = true := by
    rw [Reader.isNameStart_plain (Mining.toNat_of_isValueChar hvalue)]
    simp only [Text.isNameStart, Bool.or_eq_true, beq_iff_eq] at hfirst
    rcases hfirst with (halpha | rfl) | rfl
    · rw [halpha, Bool.true_or]
    · rfl
    · rfl
  simp [Source.isPlainStart, hname, Source.isNamePart, hstart, hplain]

/-- A mined name starts with its label. -/
theorem isPlainStart_spell_minedTable {separator text : String} {declared : List String}
    {name : String} (h : Source.isPlainStart name = true) :
    Source.isPlainStart ((minedTable separator text declared).spell name) = true := by
  unfold Table.spell
  cases hfind : (minedTable separator text declared).find? name with
  | none => exact h
  | some new =>
      have hmem := Table.mem_ofList (List.mem_filter.1 (Table.mem_of_find? hfind)).1
      obtain ⟨candidate, hcandidate, heq⟩ := List.mem_map.1 hmem
      obtain ⟨rfl, rfl⟩ := Prod.mk.inj heq
      have hlabel := isPlainStart_of_isPlainName (Mining.label_plain (List.mem_filter.1 hcandidate).1)
      exact Source.isPlainStart_append (Source.isPlainStart_append hlabel _) _

theorem opened_respell {t : Tree} {spell : Tree.Spelling} (h : Printer.Opened t)
    (hspell : ∀ path name, Source.isPlainStart name = true →
      Source.isPlainStart (spell path name) = true) : Printer.Opened (t.respell spell) :=
  ⟨Grammar.made_respell (fun _ _ _ => trivial) h.made, Tree.isPlainlyOpened_respell hspell h.plain⟩

/-- Spelling names anew keeps what lasts if it keeps how names start. -/
theorem Lasts.respell {again : Bool} {t : Tree} {spell : Tree.Spelling} (h : Lasts again t)
    (hprogram : t.isProgram = true)
    (hspell : ∀ path name, Source.isPlainStart name = true →
      Source.isPlainStart (spell path name) = true) : Lasts again (t.respell spell) where
  statements := statements_respell_ne_nil hprogram h.statements spell
  opened hagain := opened_respell (h.opened hagain) hspell

/-- The text of a program that starts with a token is parsed as such a program again. -/
theorem lasts_of_reparse {goal : Grammar.Goal} {indent text : String} {t t' : Tree}
    (h : t.isProgram = true) (hlasts : Lasts true t) (htext : t.render indent = .ok text)
    (ht' : parseProgram goal text = .ok t') : Lasts true t' := by
  have hparse := parse_of_parseProgram ht'
  obtain ⟨sourceGoal, body, rfl⟩ := exists_programNode h
  obtain ⟨first, more, rfl⟩ := List.exists_cons_of_ne_nil hlasts.statements
  have hfront := render_front (hlasts.opened rfl) rfl text htext
  obtain ⟨hplain, first', more', hbody⟩ := Grammar.leads_of_parse hfront hparse
  refine ⟨?_, fun _ => ⟨Grammar.made_front hparse, hplain⟩⟩
  rw [Tree.statements, hbody]
  exact List.cons_ne_nil first' more'

theorem deshadow_keepsLasting : Ends (Ready source config (KeepsLasting source config skip only))
    deshadow fun _ => Settled source config (KeepsLasting source config skip only) := by
  refine (deshadow_ends fun t res ht hres => ?_).start fun _ => Ready.given
  have hprogram := isProgram_of_parseProgram ht
  obtain ⟨spell, htree, hspell⟩ := exists_respell_of_resolve hprogram hres
  rw [htree]
  refine ⟨Tree.isProgram_respell hprogram, fun t₀ ht₀ hlasts => ?_⟩
  obtain rfl := Except.ok.inj (ht.symm.trans ht₀)
  refine hlasts.respell hprogram fun path name hname => ?_
  obtain ⟨more, hmore⟩ := hspell path name
  rw [hmore]
  exact Source.isPlainStart_append hname more

theorem mine_keepsLasting (hchosen : isChosen skip only "mine" = true) :
    Ends (Ready source config (KeepsLasting source config skip only)) mine fun _ =>
      Settled source config (KeepsLasting source config skip only) := by
  refine mine_ends keepsLasting_of_parse fun hlimit =>
    mineRound_ends fun t text t' declared ht htext ht' _ => ?_
  have hprogram := isProgram_of_parseProgram ht'
  have hmines : mines config skip only = true := by
    rw [mines, hchosen, Bool.true_and, bne_iff_ne]
    exact hlimit
  refine ⟨Tree.isProgram_respell hprogram, fun t₀ ht₀ hlasts => ?_⟩
  have hkept := ht.2 t₀ ht₀ hlasts
  rw [hmines] at hkept ⊢
  have hagain := lasts_of_reparse ht.1 hkept htext ht'
  exact hagain.respell hprogram fun _ _ => isPlainStart_spell_minedTable

theorem frequency_keepsStatements :
    Ends (Ready source config (KeepsLasting source config skip only)) frequency fun _ =>
      Settled source config (KeepsStatements source config skip only) :=
  frequency_ends (fun _ ht => ht.1) keepsLasting_of_parse
    fun _ _ _ ht _ _ => ht.keepsStatements.respell _

/-- A finished run leaves a context whose parts agree.  If a pass was selected, there is a
program with the text it is printed as, the output is that text, with names for functions
if those were asked for, and it is empty only if the program has no statement; which is so
only if the source has none, unless the printed text is parsed again and the source starts,
behind parentheses and minus signs, with a name that starts with no character of names or
with a backslash.  If no pass was selected, nothing has been done. -/
theorem runOn_outcome (h : runOn source config skip only = (.ok (), ctx)) :
    ctx.report.outputLength = ctx.output.length ∧
    (choosesPass skip only = false → ctx.tree = none ∧ ctx.text = "" ∧ ctx.output = "") ∧
    (choosesPass skip only = true →
      (∃ t, ctx.tree = some t ∧ t.render config.indent = .ok ctx.text ∧
        (ctx.output = "" ↔ t.statements = [])) ∧
      ctx.output =
        (if isChosen skip only "fixups" && config.nameFunctions then
          FunctionNames.nameAll config.separator ctx.text
        else ctx.text) ∧
      (∀ t₀, Grammar.parse config.goal source = .ok t₀ → t₀.statements ≠ [] →
        (mines config skip only = true → t₀.isPlainlyOpened = true) → ctx.output ≠ "")) := by
  have hkept := fun t => @KeepsLasting.keepsStatements source config skip only t
  obtain ⟨hfinished, hlength⟩ := runOn_finished hkept keepsLasting_of_parse deshadow_keepsLasting
    mine_keepsLasting frequency_keepsStatements h
  refine ⟨hlength, fun hidle => ?_, fun hchosen => ?_⟩
  · obtain ⟨-, htree, htext, houtput⟩ := hfinished.idle hidle
    exact ⟨htree, htext, houtput⟩
  · obtain ⟨-, t, htree, htext, hprogram, hkeeps⟩ := hfinished.printed hchosen
    have hempty : ctx.output = "" ↔ t.statements = [] := by
      rw [hfinished.output_eq, finalText_eq_empty_iff, render_eq_empty_iff hprogram htext]
    refine ⟨⟨t, htree, htext, hempty⟩, hfinished.output_eq, ?_⟩
    intro t₀ ht₀ hsome hplain houtput
    refine hkeeps t₀ (parseProgram_of_parse ht₀) ⟨hsome, fun hmines => ?_⟩ (hempty.1 houtput)
    exact ⟨Grammar.made_front ht₀, hplain hmines⟩

end Counting

/-- What a run leaves when it is finished, computed. -/
def contextOf (source : String) (config : Config) (skip only : List String) : Option Context :=
  match (Work.runAll (standardPasses.filter fun pass => isChosen skip only pass.1)).run
    { source, config } with
  | (.ok _, ctx) => some ctx
  | (.error _, _) => none

theorem runOn_of_contextOf {source : String} {config : Config} {skip only : List String}
    {ctx : Context} (h : contextOf source config skip only = some ctx) :
    ∃ report, runOn source config skip only = (.ok (), { ctx with report }) := by
  unfold contextOf at h
  rcases hrun : (Work.runAll (standardPasses.filter fun pass => isChosen skip only pass.1)).run
    { source, config } with ⟨failure | u, ctx'⟩ <;> rw [hrun] at h
  · cases h
  · obtain rfl := Option.some.inj h
    have hpasses : ∃ names report, (Work.runPasses standardPasses skip only).run { source, config } =
        (.ok names, { ctx' with report }) := by
      unfold Work.runPasses
      rw [standardPasses_inOrder]
      exact ⟨_, _, Work.run_bind_ok hrun⟩
    obtain ⟨names, report, hpasses⟩ := hpasses
    simp only [runOn, hpasses]
    exact ⟨_, rfl⟩

set_option maxRecDepth 100000 in
/-- A run with all passes that mines the printed text and names a function. -/
theorem runOn_outcome_named : ∃ ctx, runOn "x = function()\x7b\x7d" {} [] [] = (.ok (), ctx) ∧
    ctx.output = FunctionNames.nameAll "$" ctx.text ∧ ctx.output ≠ "" := by
  have hfinished : (contextOf "x = function()\x7b\x7d" {} [] []).isSome = true := by
    decide +kernel
  have hstatement : ((Grammar.parse .script "x = function()\x7b\x7d").toOption.map fun t =>
      (t.statements.length, t.isPlainlyOpened)) = some (1, true) := by decide +kernel
  obtain ⟨ctx, hctx⟩ := Option.isSome_iff_exists.1 hfinished
  obtain ⟨t, ht, hopening⟩ := Option.map_eq_some_iff.1 hstatement
  obtain ⟨hlength, hplain⟩ := Prod.mk.inj hopening
  obtain ⟨report, hrun⟩ := runOn_of_contextOf hctx
  obtain ⟨-, houtput, hsome⟩ := (runOn_outcome hrun).2.2 (by decide +kernel)
  refine ⟨_, hrun, houtput, hsome t (ok_of_toOption ht) ?_ fun _ => hplain⟩
  exact List.ne_nil_of_length_eq_add_one hlength

set_option maxRecDepth 100000 in
/-- If no pass is selected, or if a name spelled with escapes starts like a comment and its
printed text is parsed again, the output is empty although there is a statement. -/
theorem finished_without_output :
    (∃ t ctx, Grammar.parse .script "a" = .ok t ∧ t.statements ≠ [] ∧
      runOn "a" {} standardPasses.keys [] = (.ok (), ctx) ∧ ctx.tree.isSome = false ∧
      ctx.output = "") ∧
    (∃ t ctx, Grammar.parse .script "\\u\x7b2f\x7d\\u\x7b2f\x7d" = .ok t ∧ t.statements ≠ [] ∧
      runOn "\\u\x7b2f\x7d\\u\x7b2f\x7d" {} [] [] = (.ok (), ctx) ∧ ctx.output = "") := by
  have hidle : ((contextOf "a" {} standardPasses.keys []).map fun ctx =>
      (ctx.tree.isSome, ctx.output)) = some (false, "") := by decide +kernel
  have hescaped : ((contextOf "\\u\x7b2f\x7d\\u\x7b2f\x7d" {} [] []).map fun ctx => ctx.output) =
      some "" := by decide +kernel
  have hstatement : ((Grammar.parse .script "a").toOption.map fun t => t.statements.length) =
      some 1 := by decide +kernel
  have hname : ((Grammar.parse .script "\\u\x7b2f\x7d\\u\x7b2f\x7d").toOption.map fun t =>
      t.statements.length) = some 1 := by decide +kernel
  obtain ⟨ctx, hctx, hempty⟩ := Option.map_eq_some_iff.1 hidle
  obtain ⟨ctx', hctx', hempty'⟩ := Option.map_eq_some_iff.1 hescaped
  obtain ⟨t, ht, hlength⟩ := Option.map_eq_some_iff.1 hstatement
  obtain ⟨t', ht', hlength'⟩ := Option.map_eq_some_iff.1 hname
  obtain ⟨report, hrun⟩ := runOn_of_contextOf hctx
  obtain ⟨report', hrun'⟩ := runOn_of_contextOf hctx'
  refine ⟨⟨t, _, ok_of_toOption ht, ?_, hrun, (Prod.mk.inj hempty).1, (Prod.mk.inj hempty).2⟩,
    t', _, ok_of_toOption ht', ?_, hrun', hempty'⟩
  · exact List.ne_nil_of_length_eq_add_one hlength
  · exact List.ne_nil_of_length_eq_add_one hlength'

end NameRecovery
