import NameRecovery.Proofs.Scope.Globals
import NameRecovery.Proofs.Scope.Idempotence

/-!
# Names of the whole program survive

The program's own frame is filled first, when nothing counts as declared but the names
that the program uses without declaring them.  None of these is declared by the program
itself: its frame lies at the bottom of every stack of scopes, so a name it has is found
in it at the latest.  Hence every name of the program's own frame is a first binding and
keeps its spelling, and a number is only ever put behind a name of an inner scope.

* `Keeps` — a frame in which every name keeps its spelling, and why it stays so;
* `Runs.not_global` — a name the program declares is found by every mention;
* `Resolver.Numbers` — a replacement is the old name with a number behind it;
* `resolve_keeps_top_level` — what the program declares, and what it only uses, survives.
-/

namespace NameRecovery.Scope

open NameRecovery.Tree

/-! ## Filling the first frame -/

/-- A frame that keeps its names, while nothing counts as declared but the reserved names and
its own. -/
structure Keeps (reserved : List String) (r : Resolver) (frame : Frame) : Prop where
  /-- A name counts as declared for one of two reasons. -/
  counted : ∀ n, r.counters.has n = true → n ∈ reserved ∨ frame.has n = true
  /-- Every name keeps its spelling. -/
  same : ∀ {n m}, frame.find? n = some m → m = n

namespace Keeps

variable {reserved : List String} {r : Resolver} {frame : Frame}

theorem declareIn (h : Keeps reserved r frame) {name : String} (hname : name ∉ reserved) :
    Keeps reserved (r.declareIn frame name).1 (r.declareIn frame name).2 := by
  rcases r.declareIn_cases frame name with
    ⟨-, heq⟩ | ⟨-, -, counters, hcounters, heq⟩ | ⟨hframe, -, hcounted, -, -, -⟩
  · rw [heq]
    exact h
  · rw [heq]
    refine ⟨fun n hn => ?_, fun {n m} hfind => ?_⟩
    · rw [hcounters, Bool.or_eq_true, decide_eq_true_eq] at hn
      rw [Table.has_put, Bool.or_eq_true, decide_eq_true_eq]
      rcases hn with hn | hn
      · exact .inr (.inl hn)
      · exact (h.counted n hn).imp_right .inr
    · rw [Table.find?_put] at hfind
      split at hfind
      · rename_i hn
        rw [hn, Option.some.inj hfind]
      · exact h.same hfind
  · -- a name that counts as declared is reserved, or the frame has it already
    rcases h.counted name hcounted with hreserved | hhas
    · exact absurd hreserved hname
    · rw [hframe] at hhas
      cases hhas

theorem declareAll {names : List String} : ∀ {r : Resolver} {frame : Frame},
    Keeps reserved r frame → (∀ n ∈ names, n ∉ reserved) →
      Keeps reserved (r.declareAll frame names).1 (r.declareAll frame names).2 := by
  induction names with
  | nil => intro r frame h _; exact h
  | cons name rest ih =>
      intro r frame h hnames
      rw [Resolver.declareAll]
      exact ih (h.declareIn (hnames name List.mem_cons_self))
        fun n hn => hnames n (List.mem_cons_of_mem _ hn)

theorem start (known reserved : List String) :
    Keeps reserved (.start known reserved false) [] where
  counted n hn := by
    rw [Resolver.start, Table.has_ofList, List.any_map, List.any_eq_true] at hn
    obtain ⟨m, hm, heq⟩ := hn
    rw [← beq_iff_eq.1 heq]
    exact .inl hm
  same hfind := by cases hfind

end Keeps

/-- The frame of a program that declares no reserved name has its names and keeps them. -/
theorem find?_programFrame (known : List String) {reserved names : List String}
    (h : ∀ n ∈ names, n ∉ reserved) (n : String) :
    ((Resolver.start known reserved false).declareAll [] names).2.find? n =
      if n ∈ names then some n else none := by
  have hkeeps := (Keeps.start known reserved).declareAll h
  have hhas := Walk.Tracks.declared (.start known reserved false) names n
  split
  · rename_i hn
    obtain ⟨m, hm⟩ := (Table.has_eq_true_iff ..).1 (hhas.trans (List.contains_iff_mem.2 hn))
    rw [hm, hkeeps.same hm]
  · rename_i hn
    rw [List.contains_eq_mem, decide_eq_false hn, Table.has, Option.isSome_eq_false_iff] at hhas
    exact Option.isNone_iff_eq_none.1 hhas

/-! ## What a run keeps -/

/-- A frame that was filled stays filled. -/
theorem Walk.filled_follow {w w' : Walk} {events : List Event} (hrun : w.follow events = .ok w') :
    ∀ scope ∈ w.filled, scope ∈ w'.filled := by
  induction events generalizing w with
  | nil => rw [← Except.ok.inj hrun]; exact fun _ h => h
  | cons event rest ih =>
      obtain ⟨next, hstep, hrun⟩ := Walk.follow_cons_ok hrun
      intro scope hscope
      refine ih hrun scope ?_
      rw [(step_ok hstep).2]
      cases event with
      | declare _ | enter _ _ => exact List.mem_cons_of_mem _ hscope
      | leave | mention _ _ | broken _ => exact hscope

/-- Every replacement is the old name with a number behind it. -/
def Resolver.Numbers (r : Resolver) : Prop :=
  ∀ n m, (n, m) ∈ r.renames → ∃ count, m = numbered n count

theorem numbered_ne (name : String) (count : Nat) : numbered name count ≠ name := by
  intro h
  have hlength := congrArg String.length h
  have hpos : 0 < (toString count).length := by
    rw [← String.length_toList]
    exact List.length_pos_of_ne_nil (by simp [Nat.toDigits_ne_nil])
  rw [numbered, String.length_append] at hlength
  omega

namespace Resolver.Numbers

variable {r r' : Resolver}

theorem declareIn (h : r.Numbers) (frame : Frame) (name : String) :
    (r.declareIn frame name).1.Numbers := by
  rcases r.declareIn_cases frame name with
    ⟨-, heq⟩ | ⟨-, -, counters, -, heq⟩ | ⟨-, -, -, count, -, heq⟩
  · rw [heq]
    exact h
  · rw [heq]
    exact h
  · rw [heq]
    intro n m hmem
    rcases List.mem_append.1 hmem with hmem | hmem
    · exact h n m hmem
    · obtain ⟨rfl, rfl⟩ := Prod.mk.inj (List.mem_singleton.1 hmem)
      exact ⟨count, rfl⟩

theorem declareAll (names : List String) : ∀ {r : Resolver} (frame : Frame), r.Numbers →
    (r.declareAll frame names).1.Numbers := by
  induction names with
  | nil => intro r frame h; exact h
  | cons name rest ih =>
      intro r frame h
      rw [Resolver.declareAll]
      exact ih _ (h.declareIn frame name)

/-- Whatever the event, the replacements stay numbered names. -/
theorem step (h : r.Numbers) {event : Event} (hstep : r.step event = .ok r') : r'.Numbers := by
  cases event with
  | declare names =>
      rw [Resolver.step, Resolver.declareAt] at hstep
      cases hindex : r.frameIndex? 0 with
      | none => rw [hindex] at hstep; cases hstep
      | some i =>
          rw [hindex] at hstep
          rw [← Except.ok.inj hstep]
          exact declareAll names (r.frames.getD i []) h
  | enter scope names =>
      rw [Resolver.step_enter] at hstep
      rw [← Except.ok.inj hstep]
      exact declareAll names [] h
  | leave =>
      obtain ⟨frame, frames, -, rfl⟩ := Resolver.step_leave hstep
      exact h
  | mention path name =>
      cases hlookup : r.lookup name with
      | none =>
          rw [Resolver.step_mention_free path hlookup] at hstep
          rw [← Except.ok.inj hstep]
          exact h
      | some new =>
          rw [Resolver.step_mention_bound path hlookup] at hstep
          rw [← Except.ok.inj hstep]
          split <;> exact h
  | broken fault => cases hstep

theorem follow {events : List Event} (h : r.Numbers) (hrun : r.follow events = .ok r') :
    r'.Numbers := by
  induction events generalizing r with
  | nil => rw [← Except.ok.inj hrun]; exact h
  | cons event rest ih =>
      rw [Resolver.follow] at hrun
      cases hstep : r.step event with
      | error e => rw [hstep] at hrun; cases hrun
      | ok next =>
          rw [hstep] at hrun
          exact ih (h.step hstep) hrun

end Resolver.Numbers

/-! ## The program's own scope -/

/-- What a program declares first are its names. -/
theorem Regular.programNames_eq {t : Tree} {declared names : List String} {body : List Event}
    (h : Regular t declared body) (hprogram : t.isProgram = true)
    (hnames : programNames t = .ok names) : declared = names := by
  obtain ⟨fields, rfl, hformed⟩ := exists_fields_of_isProgram hprogram
  obtain ⟨names', hnames', hevents⟩ := events_program hformed
  obtain ⟨hdeclare, -⟩ := List.cons.inj (h.events_eq.symm.trans hevents)
  rw [Event.declare.inj hdeclare, Except.ok.inj (hnames'.symm.trans hnames)]

namespace Runs

variable {t : Tree} {res : Resolution} {dry real : Walk} {names : List String}

/-- A name that the program declares is never free: its frame lies below all others. -/
theorem not_global (h : Runs t res dry real) (hprogram : t.isProgram = true)
    (hnames : programNames t = .ok names) : ∀ n ∈ names, n ∉ res.globals := by
  intro n hn hglobal
  obtain ⟨p, hp⟩ := h.mem_globals_iff.1 hglobal
  obtain ⟨declared, body, hregular, hreferents⟩ := h.referents_eq
  obtain rfl := hregular.programNames_eq hprogram hnames
  rw [hreferents] at hp
  obtain ⟨m, hm, heq⟩ := List.mem_map.1 hp
  obtain ⟨hname, hfree⟩ := meaning_eq_free.1 (Prod.mk.inj heq).2
  obtain ⟨inner, hstack⟩ := hregular.nested.stack_suffix hm
  refine hfree ([], declared) ?_ (hname ▸ hn)
  rw [hstack]
  exact List.mem_append_right _ List.mem_cons_self

/-- The real run starts with the program's names, and follows what comes after them. -/
theorem real_follow (h : Runs t res dry real) (hprogram : t.isProgram = true)
    (hnames : programNames t = .ok names) :
    ∃ known body, Regular t names body ∧
      (Walk.opened known res.globals false names).follow body = .ok real := by
  obtain ⟨known, declared, body, hregular, -, hw⟩ := h.opened hprogram
  obtain rfl := hregular.programNames_eq hprogram hnames
  exact ⟨known, body, hregular, hw⟩

/-- The frame left at the end is the program's own, and it keeps the names it has. -/
theorem frames_eq (h : Runs t res dry real) (hprogram : t.isProgram = true)
    (hnames : programNames t = .ok names) :
    ∃ frame : Frame, real.resolver.frames = [frame] ∧ ([], frame) ∈ real.filled ∧
      ∀ n, frame.find? n = if n ∈ names then some n else none := by
  obtain ⟨known, body, hregular, hfollow⟩ := h.real_follow hprogram hnames
  obtain ⟨w, hw, hframes, -⟩ :=
    hregular.nested.follow (Walk.opened known res.globals false names)
  obtain rfl := Except.ok.inj (hw.symm.trans hfollow)
  refine ⟨_, hframes, ?_, find?_programFrame known (h.not_global hprogram hnames)⟩
  exact Walk.filled_follow hw _ List.mem_cons_self

/-- The bindings of the program itself have the names it declares, and keep them. -/
theorem gives_root_iff (h : Runs t res dry real) (hprogram : t.isProgram = true)
    (hnames : programNames t = .ok names) (n m : String) :
    real.filled.Gives [] n m ↔ n ∈ names ∧ m = n := by
  obtain ⟨known, -, hsound⟩ := h.sound
  obtain ⟨frame, -, hfilled, hfind⟩ := h.frames_eq hprogram hnames
  constructor
  · rintro ⟨f, hf, hm⟩
    rw [hsound.filled_unique hf hfilled, hfind] at hm
    split at hm
    · rename_i hn
      exact ⟨hn, (Option.some.inj hm).symm⟩
    · cases hm
  · rintro ⟨hn, rfl⟩
    exact ⟨frame, hfilled, by rw [hfind, if_pos hn]⟩

theorem numbers (h : Runs t res dry real) (hprogram : t.isProgram = true)
    (hnames : programNames t = .ok names) : real.resolver.Numbers := by
  obtain ⟨known, body, -, hfollow⟩ := h.real_follow hprogram hnames
  have hresolver := Walk.follow_resolver (Walk.opened known res.globals false names) body
  rw [hfollow] at hresolver
  have hstart : (Resolver.start known res.globals false).Numbers :=
    fun n m hmem => absurd hmem List.not_mem_nil
  have hopened : (Walk.opened known res.globals false names).resolver.Numbers :=
    Resolver.Numbers.declareAll names [] hstart
  exact hopened.follow hresolver.symm

/-- An occurrence that means a binding of the program, or a free name, is spelled as before. -/
theorem kept (h : Runs t res dry real) (hprogram : t.isProgram = true)
    (hnames : programNames t = .ok names) {o : Path × String} (ho : o ∈ t.occurrences)
    {r : Referent} (hr : (o.1, r) ∈ dry.referents) (htop : r = .bound [] o.2 ∨ r = .free o.2) :
    o ∈ res.tree.occurrences := by
  have hformed := isFormed_of_isProgram hprogram
  obtain ⟨known, -, hsound⟩ := h.sound
  rw [h.tree_eq_respell hformed, occurrences_respell hformed]
  rw [h.alike.referents] at hr
  refine List.mem_map.2 ⟨o, ho, ?_⟩
  rcases htop with rfl | rfl
  · have hgives := hsound.bound_spelled hr
    rw [((h.gives_root_iff hprogram hnames _ _).1 hgives).2]
  · rw [(hsound.free_spelled hr).1]
    rfl

/-- A binding that gets a number belongs to a scope inside the program's own. -/
theorem renamed_inside (h : Runs t res dry real) (hprogram : t.isProgram = true)
    (hnames : programNames t = .ok names) {n m : String} (hmem : (n, m) ∈ real.resolver.renames) :
    (∃ count, m = numbered n count) ∧ ∃ s declared, s ≠ [] ∧ .enter s declared ∈ events t ∧
      n ∈ declared ∧ real.filled.Gives s n m := by
  obtain ⟨hcounts, hgives⟩ := h.accounts hprogram
  obtain ⟨count, rfl⟩ := h.numbers hprogram hnames n m hmem
  obtain ⟨s, hs, -⟩ := hcounts.accounted.clashing hmem
  have hinner : s ≠ [] := by
    rintro rfl
    exact numbered_ne n count ((h.gives_root_iff hprogram hnames _ _).1 hs).2
  obtain ⟨event, hevent, hn⟩ := List.mem_flatMap.1 ((hgives s n).1 ⟨_, hs⟩)
  refine ⟨⟨count, rfl⟩, s, ?_⟩
  cases event with
  | enter site declared =>
      rw [Event.declaredFor] at hn
      split at hn
      · rename_i hsite
        subst hsite
        exact ⟨declared, hinner, hevent, hn, hs⟩
      · exact absurd hn List.not_mem_nil
  | declare declared =>
      rw [Event.declaredFor, if_neg hinner] at hn
      exact absurd hn List.not_mem_nil
  | leave | mention _ _ | broken _ => exact absurd hn List.not_mem_nil

end Runs

/-- What resolving the program `t` does with the names it declares for the whole of it, and with
those it uses without declaring them. -/
structure TopLevelKept (t : Tree) (res : Resolution) (dry real : Walk) (names : List String) :
    Prop where
  /-- Resolving the program succeeds. -/
  resolved : resolve t = .ok res
  /-- The dry run finds what every occurrence means. -/
  dry_walk : walkThrough t [] true = .ok dry
  /-- The real run gives the new names. -/
  real_walk : walkThrough t res.globals false = .ok real
  /-- The names declared at the level of the program: by `let`, `const`, imports, functions and
  classes among its statements, and by `var` wherever it is hoisted to them. -/
  declared : programNames t = .ok names
  /-- They are all mapped to themselves, by the one frame that is left at the end. -/
  mapped : ∃ frame : Frame, res.resolver.frames = [frame] ∧
    ∀ n, frame.find? n = if n ∈ names then some n else none
  /-- Those are the bindings of the program's own scope. -/
  bound : ∀ n m, real.filled.Gives [] n m ↔ n ∈ names ∧ m = n
  /-- No such name is one that the program uses without declaring it. -/
  not_free : ∀ n ∈ names, n ∉ res.globals
  /-- An occurrence of such a binding, or of a free name, stays as it is. -/
  kept : ∀ o ∈ t.occurrences, ∀ r, (o.1, r) ∈ dry.referents →
    r = .bound [] o.2 ∨ r = .free o.2 → o ∈ res.tree.occurrences
  /-- A binding with a new name has a number behind the old one, and an inner scope declares
  it. -/
  renamed_inside : ∀ n m, (n, m) ∈ res.resolver.renames → (∃ count, m = numbered n count) ∧
    ∃ s inner, s ≠ [] ∧ .enter s inner ∈ events t ∧ n ∈ inner ∧ real.filled.Gives s n m
  /-- There are no other bindings with a new name. -/
  renamed : ∀ s n m, real.filled.Gives s n m → m = n ∨ (n, m) ∈ res.resolver.renames

/-- **Names of the whole program and free names survive**, whatever the program. -/
theorem resolve_keeps_top_level {t : Tree} (h : t.isProgram = true) :
    ∃ res dry real names, TopLevelKept t res dry real names := by
  obtain ⟨res, dry, real, hruns⟩ := runs_program h
  obtain ⟨names, hnames⟩ : ∃ names, programNames t = .ok names := by
    obtain ⟨fields, rfl, hformed⟩ := exists_fields_of_isProgram h
    obtain ⟨names, hnames, -⟩ := events_program hformed
    exact ⟨names, hnames⟩
  obtain ⟨frame, hframes, -, hfind⟩ := hruns.frames_eq h hnames
  refine ⟨res, dry, real, names,
    { resolved := hruns.resolved
      dry_walk := hruns.dry_walk
      real_walk := hruns.real_walk
      declared := hnames
      mapped := ⟨frame, by rw [hruns.resolver_eq]; exact hframes, hfind⟩
      bound := hruns.gives_root_iff h hnames
      not_free := hruns.not_global h hnames
      kept := fun o ho r hr htop => hruns.kept h hnames ho hr htop
      renamed_inside := fun n m hmem => hruns.renamed_inside h hnames ?_
      renamed := fun s n m hgives => ?_ }⟩
  · rw [hruns.resolver_eq] at hmem
    exact hmem
  · rw [hruns.resolver_eq]
    exact (hruns.accounts h).1.accounted.renamed hgives

set_option maxRecDepth 100000 in
/-- Names of the program, a hoisted one among them, and a global are all used again inside. -/
theorem resolve_keeps_top_level_shadowed :
    ∃ t, Grammar.parse .script
        "let a; if (a) { var b } function f(a, b, c) { return a(b, c) } f(c)" = .ok t ∧
      t.isProgram = true ∧ ∃ res dry real names, TopLevelKept t res dry real names := by
  have hprogram : (Grammar.parse .script
      "let a; if (a) { var b } function f(a, b, c) { return a(b, c) } f(c)").toOption.any
        isProgram = true := by
    decide +kernel
  cases hparse : Grammar.parse .script
      "let a; if (a) { var b } function f(a, b, c) { return a(b, c) } f(c)" with
  | error e => rw [hparse] at hprogram; cases hprogram
  | ok t =>
      rw [hparse] at hprogram
      exact ⟨t, rfl, hprogram, resolve_keeps_top_level hprogram⟩

end NameRecovery.Scope
