import NameRecovery.Proofs.Outcome
import NameRecovery.Proofs.Substitution
import NameRecovery.Proofs.Scope.Announced

/-!
# The rounds of a mining pass

Mining takes a fixed number of rounds, or goes on until a round renames nothing.  Every
round works on the text that the one before it has left.

* `MiningRound.Follows` — what one round does, and the text it leaves;
* `Course` — rounds in a row, one text after the other, up to the end of the pass;
* `Work.mineRounds_course` — the loop takes such a course;
* `mine_rounds` — what the report tells of the rounds of a pass.
-/

namespace NameRecovery

/-! ## One round -/

/-- Is the round the one with that number over a text, and does it leave the other text?
It parses the text, renames after the names it mines there, and prints the program. -/
structure MiningRound.Follows (config : Config) (index : Nat) (text text' : String)
    (round : MiningRound) : Prop where
  index_eq : round.index = index
  program : ∃ t declared, parseProgram config.goal text = .ok t ∧
    t.declaredNames = .ok declared ∧ round.renames = minedTable config.separator text declared ∧
      round.occurrences = (t.occurrences.countP fun o => round.renames.has o.2 : Nat) ∧
        (t.substitute round.renames.spell).render config.indent = .ok text'

theorem Table.has_of_mem {α : Type} {table : Table α} {entry : String × α} (h : entry ∈ table) :
    table.has entry.1 = true := by
  by_contra hmissing
  have hnone : table.find? entry.1 = none := by
    rw [← Option.not_isSome_iff_eq_none]
    exact hmissing
  have hother := List.lookup_eq_none_iff.1 hnone entry h
  simp at hother

/-- A declared name is the name of an occurrence: the one that declares it. -/
theorem occurs_of_declared {t : Tree} (h : t.isProgram = true) {declared : List String}
    (hdeclared : t.declaredNames = .ok declared) {name : String} (hname : name ∈ declared) :
    ∃ o ∈ t.occurrences, o.2 = name := by
  have hformed := Scope.isFormed_of_isProgram h
  have hnatural := Scope.declaredNames_natural hformed (Work.isNode_of_isProgram h)
  have hmem := hnatural.mem_occurrences hformed hdeclared ⟨none, none, []⟩ rfl hname
  exact List.mem_map.1 hmem

/-- A round that has new names renames something, since every new name is one for a name
that is declared. -/
theorem MiningRound.Follows.occurrences_eq_zero_iff {config : Config} {index : Nat}
    {text text' : String} {round : MiningRound} (h : round.Follows config index text text') :
    round.occurrences = 0 ↔ round.renames = [] := by
  obtain ⟨t, declared, hparse, hdeclared, hrenames, hcount, -⟩ := h.program
  constructor
  · intro hzero
    by_contra hsome
    obtain ⟨entry, hentry⟩ := List.exists_mem_of_ne_nil _ hsome
    have hmined : entry.1 ∈ declared := by
      rw [hrenames] at hentry
      simpa using (List.mem_filter.1 hentry).2
    obtain ⟨o, ho, hname⟩ :=
      occurs_of_declared (Work.isProgram_of_parseProgram hparse) hdeclared hmined
    have hpos : 0 < t.occurrences.countP fun o => round.renames.has o.2 := by
      apply List.countP_pos_iff.2
      exact ⟨o, ho, hname ▸ Table.has_of_mem hentry⟩
    omega
  · intro hnil
    rw [hcount, hnil]
    simp

/-! ## Rounds in a row -/

/-- The warning of a pass that has not converged. -/
def notConverged (config : Config) : String :=
  "pattern mining did not converge within " ++ toString config.maxRounds ++ " rounds"

/-- The rounds that follow each other, with the number of rounds that may still come, the
number of the next one and the text it works on; and the warnings at the end. -/
inductive Course (config : Config) :
    Nat → Nat → String → List MiningRound → List String → Prop where
  /-- No round may come. -/
  | ended {index : Nat} {text : String} :
      Course config 0 index text [] (if config.untilConverged then [notConverged config] else [])
  /-- A round renames nothing, and that was waited for. -/
  | converged {left index : Nat} {text text' : String} {round : MiningRound}
      (hround : round.Follows config index text text') (huntil : config.untilConverged = true)
      (hnil : round.renames = []) : Course config (left + 1) index text [round] []
  /-- More rounds may come after a round. -/
  | next {left index : Nat} {text text' : String} {round : MiningRound}
      {rest : List MiningRound} {warnings : List String}
      (hround : round.Follows config index text text')
      (hsome : config.untilConverged = true → round.renames ≠ [])
      (hrest : Course config left (index + 1) text' rest warnings) :
      Course config (left + 1) index text (round :: rest) warnings

/-- Has the last round renamed something, if there was one? -/
def stillRenames (rounds : List MiningRound) : Bool :=
  rounds.getLast?.all fun last => !last.renames.isEmpty

namespace Course

variable {config : Config} {left index : Nat} {text : String} {rounds : List MiningRound}
  {warnings : List String}

theorem follows (h : Course config left index text rounds warnings) :
    ∀ round ∈ rounds, ∃ index text text', round.Follows config index text text' := by
  induction h with
  | ended => exact nofun
  | converged hround _ _ =>
      intro round hmem
      obtain rfl := List.mem_singleton.1 hmem
      exact ⟨_, _, _, hround⟩
  | next hround _ _ ih =>
      intro round hmem
      rcases List.mem_cons.1 hmem with rfl | hmem
      · exact ⟨_, _, _, hround⟩
      · exact ih round hmem

/-- The rounds are numbered without gaps. -/
theorem indices (h : Course config left index text rounds warnings) :
    rounds.map MiningRound.index = (List.range' index rounds.length).map Int.ofNat := by
  induction h with
  | ended => rfl
  | converged hround _ _ => simp [hround.index_eq]
  | next hround _ _ ih =>
      rw [List.map_cons, ih, hround.index_eq, List.length_cons, List.range'_succ, List.map_cons]
      rfl

theorem length_le (h : Course config left index text rounds warnings) :
    rounds.length ≤ left := by
  induction h with
  | ended => exact Nat.le_refl 0
  | converged _ _ _ => simp
  | next _ _ _ ih => simpa using ih

/-- Without waiting for a round that renames nothing, all rounds come, and no warning. -/
theorem fixed (h : Course config left index text rounds warnings)
    (huntil : config.untilConverged = false) : rounds.length = left ∧ warnings = [] := by
  induction h with
  | ended => simp [huntil]
  | converged _ hwaits _ => simp [huntil] at hwaits
  | next _ _ _ ih => simpa using ih

theorem ne_nil (h : Course config left index text rounds warnings) (hleft : 1 ≤ left) :
    rounds ≠ [] := by
  cases h with
  | ended => omega
  | converged _ _ _ => simp
  | next _ _ _ => simp

/-- Every round but the last has renamed something. -/
theorem renames_before_last (h : Course config left index text rounds warnings)
    (huntil : config.untilConverged = true) : ∀ round ∈ rounds.dropLast, round.renames ≠ [] := by
  induction h with
  | ended => exact nofun
  | converged _ _ _ => exact nofun
  | @next _ _ _ _ round rest _ _ hsome _ ih =>
      intro other hother
      cases rest with
      | nil => exact absurd hother List.not_mem_nil
      | cons second more =>
          rw [List.dropLast_cons_cons] at hother
          rcases List.mem_cons.1 hother with rfl | hother
          · exact hsome huntil
          · exact ih other hother

/-- There is a warning if the last round has renamed something, and then all rounds came. -/
theorem warned (h : Course config left index text rounds warnings)
    (huntil : config.untilConverged = true) :
    warnings = (if stillRenames rounds then [notConverged config] else []) ∧
      (stillRenames rounds = true → rounds.length = left) := by
  induction h with
  | ended => simp [stillRenames, huntil]
  | converged _ _ hnil => simp [stillRenames, hnil]
  | @next _ _ _ _ round rest _ _ hsome hrest ih =>
      have hlast : stillRenames (round :: rest) = stillRenames rest := by
        cases rest with
        | nil => simpa [stillRenames] using hsome huntil
        | cons second more => simp [stillRenames, List.getLast?_cons_cons]
      rw [hlast, List.length_cons]
      exact ⟨ih.1, fun hstill => by rw [ih.2 hstill]⟩

end Course

/-! ## The loop takes its course -/

/-- What the rounds know of the context: the settings, the text, and what has been reported
of rounds and warnings. -/
structure Context.Tells (config : Config) (text : String) (rounds : List MiningRound)
    (warnings : List String) (ctx : Context) : Prop where
  config_eq : ctx.config = config
  text_eq : ctx.text = text
  rounds_eq : ctx.report.rounds = rounds
  warnings_eq : ctx.report.warnings = warnings

section Tells

variable {config : Config} {text : String} {rounds : List MiningRound} {warnings : List String}
  {ctx : Context}

theorem Context.Tells.traced (h : ctx.Tells config text rounds warnings)
    (trace : List Remark) : { ctx with trace }.Tells config text rounds warnings :=
  ⟨h.config_eq, h.text_eq, h.rounds_eq, h.warnings_eq⟩

theorem Context.Tells.holding (h : ctx.Tells config text rounds warnings)
    (tree : Option Tree) : { ctx with tree }.Tells config text rounds warnings :=
  ⟨h.config_eq, h.text_eq, h.rounds_eq, h.warnings_eq⟩

end Tells

namespace Work

open Context

variable {config : Config} {text : String} {rounds : List MiningRound} {warnings : List String}

theorem remark_tells (remarks : List Remark) :
    Ends (Tells config text rounds warnings) (remark remarks) fun _ =>
      Tells config text rounds warnings :=
  .modify fun _ h => h.traced _

theorem parse_tells (source : String) :
    Ends (Tells config text rounds warnings) (parse source) fun t ctx =>
      ctx.Tells config text rounds warnings ∧ parseProgram config.goal source = .ok t := by
  unfold parse
  refine .read fun ctx hctx => .here hctx ?_
  refine .ofExcept fun t ht => ?_
  refine .bind (remark_tells _) fun _ => .pure fun _ h => ?_
  exact ⟨h, hctx.config_eq ▸ ht⟩

/-- The printed program becomes the text. -/
theorem render_tells (t : Tree) :
    Ends (fun ctx => ctx.Tells config text rounds warnings ∧ ctx.tree = some t) render
      fun _ ctx => ∃ text', t.render config.indent = .ok text' ∧
        ctx.Tells config text' rounds warnings := by
  unfold render
  refine .read fun ctx ⟨hctx, htree⟩ => ?_
  simp only [htree]
  refine .ofFault fun text' htext => ?_
  intro ctx' _ ctx'' _ hrun
  obtain ⟨-, rfl⟩ := Prod.mk.inj hrun
  exact ⟨text', hctx.config_eq ▸ htext, hctx.config_eq, rfl, hctx.rounds_eq, hctx.warnings_eq⟩

/-- The occurrences with a new name are counted. -/
theorem renameTree_tells {t : Tree} (ht : t.isProgram = true) (table : Table String) :
    Ends (Tells config text rounds warnings) (renameTree table t) fun count ctx =>
      (ctx.Tells config text rounds warnings ∧ ctx.tree = some (t.substitute table.spell)) ∧
        count = t.occurrences.countP fun o => table.has o.2 := by
  have hproper := Tree.isProper_of_isFormed t (Scope.isFormed_of_isProgram ht)
  unfold renameTree
  rw [Tree.rename_eq_substitute hproper (isNode_of_isProgram ht)]
  refine .bind (.modify (Q := fun _ ctx => ctx.Tells config text rounds warnings ∧
    ctx.tree = some (t.substitute table.spell)) fun _ h => ⟨h.holding _, rfl⟩) fun _ => ?_
  refine .ofFault fun count hcount => ?_
  obtain rfl := Except.ok.inj hcount
  refine .bind (remark_ends (fun _ _ h => ⟨h.1.traced _, h.2⟩) _) fun _ => ?_
  exact .pure fun _ h => ⟨h, rfl⟩

/-- **What one round does**: it is added to the report, and leaves the text of the renamed
program. -/
theorem mineRound_follows (index : Nat) :
    Ends (Tells config text rounds warnings) (mineRound index) fun renamed ctx =>
      ∃ round text', round.Follows config index text text' ∧ renamed = !round.renames.isEmpty ∧
        ctx.Tells config text' (rounds ++ [round]) warnings := by
  unfold mineRound
  refine .read fun ctx hctx => .here hctx ?_
  rw [hctx.text_eq, hctx.config_eq]
  refine .bind (remark_tells _) fun _ => ?_
  refine .bind (parse_tells text) fun t => .knowing fun ht => .ofFault fun declared hdeclared => ?_
  let table := minedTable config.separator text declared
  let candidates := candidatePairs
    (Mining.candidatesAmong Mining.defaultExcluded (Mining.assignments text))
  refine .bind (renameTree_tells (isProgram_of_parseProgram ht) table) fun count => ?_
  refine .knowing fun hcount => ?_
  let round : MiningRound := ⟨index, candidates, table, count⟩
  let told : Unit → Context → Prop := fun _ ctx => ∃ text',
    round.Follows config index text text' ∧ ctx.Tells config text' (rounds ++ [round]) warnings
  refine .bind (render_tells (t.substitute table.spell)) fun _ => ?_
  refine .bind (.modify (Q := told) ?_) fun _ => .bind (.modify (Q := told) ?_) fun _ => .pure ?_
  · rintro ctx' ⟨text', htext, htells⟩
    refine ⟨text', ⟨rfl, t, declared, ht, hdeclared, rfl, congrArg Int.ofNat hcount, htext⟩, ?_⟩
    refine ⟨htells.config_eq, htells.text_eq, ?_, htells.warnings_eq⟩
    show ctx'.report.rounds ++ [round] = _
    rw [htells.rounds_eq]
  · rintro ctx' ⟨text', hround, htells⟩
    exact ⟨text', hround, htells.traced _⟩
  · rintro ctx' ⟨text', hround, htells⟩
    exact ⟨round, text', hround, rfl, htells⟩

/-- **What all rounds do**, by induction on how many may come. -/
theorem mineRounds_course (left index : Nat) :
    Ends (Tells config text rounds warnings) (mineRounds left index) fun _ ctx =>
      ∃ text' new added, Course config left index text new added ∧
        ctx.Tells config text' (rounds ++ new) (warnings ++ added) := by
  induction left generalizing index text rounds with
  | zero =>
      unfold mineRounds
      refine .read fun ctx hctx => .here hctx ?_
      rw [hctx.config_eq]
      refine .ite (fun huntil => .modify fun ctx' h => ?_) fun hfixed => .pure fun ctx' h => ?_
      · refine ⟨text, [], [notConverged config], ?_, h.config_eq, h.text_eq, ?_, ?_⟩
        · simpa [huntil] using @Course.ended config index text
        · simpa using h.rounds_eq
        · show ctx'.report.warnings ++ [notConverged config] = _
          rw [h.warnings_eq]
      · refine ⟨text, [], [], ?_, ?_⟩
        · simpa [hfixed] using @Course.ended config index text
        · simpa using h
  | succ left ih =>
      unfold mineRounds
      refine .bind (mineRound_follows index) fun renamed => .read fun ctx hctx => ?_
      obtain ⟨round, text', hround, hrenamed, htells⟩ := hctx
      refine .here htells ?_
      rw [htells.config_eq]
      refine .ite (fun hends => .modify fun ctx' h => ?_) fun hgoes => (ih (index + 1)).mono ?_
      · obtain ⟨huntil, hnil⟩ : config.untilConverged = true ∧ round.renames = [] := by
          simpa [hrenamed] using hends
        refine ⟨text', [round], [], .converged hround huntil hnil, ?_⟩
        simpa using h.traced _
      · rintro - ctx' ⟨text'', new, added, hcourse, h⟩
        have hsome : config.untilConverged = true → round.renames ≠ [] := by
          intro huntil
          simpa [hrenamed, huntil] using hgoes
        refine ⟨text'', round :: new, added, .next hround hsome hcourse, ?_⟩
        simpa using h

/-- There is a text to mine, and nothing has been reported yet. -/
theorem ensureTree_tells :
    Ends (fun ctx => ∃ text, ctx.Tells config text [] []) ensureTree fun _ ctx =>
      ∃ text, ctx.Tells config text [] [] := by
  unfold ensureTree
  refine .read fun ctx ⟨text, hctx⟩ => ?_
  refine .here hctx ?_
  split
  · exact .pure fun _ h => ⟨text, h⟩
  · refine .bind (parse_tells ctx.source) fun t => .knowing fun _ => ?_
    refine .bind (.modify (Q := fun _ ctx => ctx.Tells config text [] [] ∧ ctx.tree = some t)
      fun _ h => ⟨h.holding _, rfl⟩) fun _ => ?_
    refine .bind (render_tells t) fun _ => .pure fun _ ⟨text', _, h⟩ => ⟨text', h⟩

end Work

/-! ## Passes -/

/-- What the report of a mining pass tells of its rounds. -/
structure Report.TellsRounds (config : Config) (report : Report) : Prop where
  /-- They are numbered 1, 2, and so on. -/
  indices : report.rounds.map MiningRound.index =
    (List.range' 1 report.rounds.length).map Int.ofNat
  /-- A fixed number of rounds comes, without a warning. -/
  fixed : config.untilConverged = false →
    report.rounds.length = config.miningRounds ∧ report.warnings = []
  /-- At most so many rounds come, and at least one if one may. -/
  bounded : config.untilConverged = true → report.rounds.length ≤ config.maxRounds ∧
    (1 ≤ config.maxRounds → report.rounds ≠ [])
  /-- Every round but the last has renamed something. -/
  renames_before_last : config.untilConverged = true →
    ∀ round ∈ report.rounds.dropLast, round.renames ≠ []
  /-- There is a warning exactly if the last one has, and then no more rounds could come. -/
  warned : config.untilConverged = true →
    report.warnings = (if stillRenames report.rounds then [notConverged config] else []) ∧
      (stillRenames report.rounds = true → report.rounds.length = config.maxRounds)
  /-- A round has changed an occurrence exactly if it has a new name. -/
  occurrences : ∀ round ∈ report.rounds, round.occurrences = 0 ↔ round.renames = []

/-- **The rounds of a mining pass are those its settings ask for**, in every context in
which none has been reported yet. -/
theorem mine_rounds {ctx ctx' : Context}
    (hfresh : ctx.report.rounds = [] ∧ ctx.report.warnings = [])
    (h : Work.mine.run ctx = (.ok (), ctx')) : ctx'.report.TellsRounds ctx.config := by
  have hmine : Work.Ends (fun c => ∃ text, c.Tells ctx.config text [] []) Work.mine fun _ c =>
      ∃ text rounds warnings, Course ctx.config ctx.config.roundLimit 1 text rounds warnings ∧
        c.report.rounds = rounds ∧ c.report.warnings = warnings := by
    unfold Work.mine
    refine .bind Work.ensureTree_tells fun _ => .read fun c ⟨text, hc⟩ => ?_
    rw [hc.config_eq]
    refine .here hc ?_
    refine (Work.mineRounds_course ctx.config.roundLimit 1).mono ?_
    rintro - c' ⟨text', rounds, warnings, hcourse, htells⟩
    exact ⟨text, rounds, warnings, hcourse, htells.rounds_eq, htells.warnings_eq⟩
  obtain ⟨text, rounds, warnings, hcourse, hrounds, hwarnings⟩ :=
    hmine ctx () ctx' ⟨ctx.text, rfl, rfl, hfresh.1, hfresh.2⟩ h
  have hfixed : ctx.config.untilConverged = false →
      ctx.config.roundLimit = ctx.config.miningRounds := fun huntil => by
    simp [Config.roundLimit, huntil]
  have hcapped : ctx.config.untilConverged = true →
      ctx.config.roundLimit = ctx.config.maxRounds := fun huntil => by
    simp [Config.roundLimit, huntil]
  subst hrounds hwarnings
  exact
    { indices := hcourse.indices
      fixed := fun huntil => hfixed huntil ▸ hcourse.fixed huntil
      bounded := fun huntil => hcapped huntil ▸ ⟨hcourse.length_le, hcourse.ne_nil⟩
      renames_before_last := hcourse.renames_before_last
      warned := fun huntil => hcapped huntil ▸ hcourse.warned huntil
      occurrences := fun round hround => by
        obtain ⟨index, text, text', hfollows⟩ := hcourse.follows round hround
        exact hfollows.occurrences_eq_zero_iff }

/-- A program to be mined until nothing is left to rename. -/
def windowContext : Context where
  source := "var a = window.foo"
  config := { untilConverged := true }

set_option maxRecDepth 100000 in
/-- The first of two rounds renames, the second does not. -/
theorem mine_rounds_window : ∃ ctx, Work.mine.run windowContext = (.ok (), ctx) ∧
    ctx.report.TellsRounds windowContext.config ∧
      ctx.report.rounds.map MiningRound.occurrences = [1, 0] := by
  have hrun : (Work.mine.run windowContext).1.isOk = true := by decide +kernel
  have hcounts : (Work.mine.run windowContext).2.report.rounds.map MiningRound.occurrences =
      [1, 0] := by decide +kernel
  rcases hmine : Work.mine.run windowContext with ⟨failure | u, ctx⟩
  · rw [hmine] at hrun
    cases hrun
  · rw [hmine] at hcounts
    exact ⟨ctx, rfl, mine_rounds ⟨rfl, rfl⟩ hmine, hcounts⟩

end NameRecovery
