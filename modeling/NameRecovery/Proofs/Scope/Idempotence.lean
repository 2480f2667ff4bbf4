import NameRecovery.Proofs.Scope.Reanalysis

/-!
# Resolving a resolved program

The resolver renames a binding only when its name is spent: reserved, or given to a
binding of another scope.  So a run renames nothing exactly if no name is declared by two
scopes and none of the free names is declared by any.

A resolved program is meant to be like that.  It is, unless some declaration was found in
a scope further in than the one it declares for, and so got the name of a binding there:
the two scopes then declare the same name, and a second run tells them apart again.

* `Accounted` — what the names given so far say about the renames made;
* `Runs.idle_iff` — when a run renames nothing;
* `Twice.found_of_unshadowed` — in a resolved program with nothing to rename, every
  declaration was found where it declares;
* `resolve_again_iff` — a second run is idle exactly then;
* `resolve_again_renames` — a program in which it is not.
-/

namespace NameRecovery.Scope

open NameRecovery.Tree

/-! ## Why a binding is renamed -/

/-- The names that count as declared are the reserved ones and those given, and a binding is
renamed only if its name is reserved or given in another scope too. -/
structure Accounted (reserved : List String) (r : Resolver) (filled : Filled) : Prop where
  /-- A name counts as declared for one of two reasons. -/
  counted : ∀ n, r.counters.has n = true → n ∈ reserved ∨ ∃ s m, filled.Gives s n m
  /-- A binding that does not keep its name is renamed. -/
  renamed : ∀ {s n m}, filled.Gives s n m → m = n ∨ (n, m) ∈ r.renames
  /-- A renamed binding had no claim to its name. -/
  clashing : ∀ {n m}, (n, m) ∈ r.renames → ∃ s, filled.Gives s n m ∧
    (n ∈ reserved ∨ ∃ s' k, s' ≠ s ∧ filled.Gives s' n k)

theorem Filled.Gives.put {filled : Filled} {scope s : Path} {frame : Frame}
    {name new n m : String} (hframe : frame.has name = false)
    (h : Filled.Gives ((scope, frame) :: filled) s n m) :
    Filled.Gives ((scope, frame.put name new) :: filled) s n m := by
  obtain ⟨f, hmem, hfind⟩ := h
  rcases List.mem_cons.1 hmem with heq | hold
  · obtain ⟨rfl, rfl⟩ := Prod.mk.inj heq
    have hne : n ≠ name := by
      rintro rfl
      rw [Table.has, hfind] at hframe
      cases hframe
    exact ⟨_, List.mem_cons_self, by rw [Table.find?_put, if_neg hne]; exact hfind⟩
  · exact ⟨f, List.mem_cons_of_mem _ hold, hfind⟩

theorem Filled.gives_put (filled : Filled) (scope : Path) (frame : Frame) (name new : String) :
    Filled.Gives ((scope, frame.put name new) :: filled) scope name new :=
  ⟨_, List.mem_cons_self, by rw [Table.find?_put, if_pos rfl]⟩

namespace Accounted

variable {reserved : List String} {r r' : Resolver} {filled : Filled} {scope : Path}
  {frame : Frame}

/-- Declaring a name in a scope that has not been filled before. -/
theorem declareIn (h : Accounted reserved r ((scope, frame) :: filled))
    (hscope : scope ∉ filled.map Prod.fst) (name : String) :
    Accounted reserved (r.declareIn frame name).1
      ((scope, (r.declareIn frame name).2) :: filled) := by
  rcases r.declareIn_cases frame name with
    ⟨-, heq⟩ | ⟨hframe, -, counters, hcounters, heq⟩ | ⟨hframe, -, hcounted, count, -, heq⟩
  · rw [heq]
    exact h
  · rw [heq]
    refine ⟨fun n hn => ?_, fun hg => ?_, fun hmem => ?_⟩
    · rw [hcounters, Bool.or_eq_true, decide_eq_true_eq] at hn
      rcases hn with rfl | hn
      · exact .inr ⟨scope, n, Filled.gives_put ..⟩
      · exact (h.counted n hn).imp_right fun ⟨s, m, hg⟩ => ⟨s, m, hg.put hframe⟩
    · rcases Separate.gives_cons_put hg with hg | ⟨-, rfl, rfl⟩
      · exact h.renamed hg
      · exact .inl rfl
    · obtain ⟨s, hg, hclash⟩ := h.clashing hmem
      exact ⟨s, hg.put hframe, hclash.imp_right fun ⟨s', k, hne, hg'⟩ =>
        ⟨s', k, hne, hg'.put hframe⟩⟩
  · rw [heq]
    refine ⟨fun n hn => ?_, fun hg => ?_, fun hmem => ?_⟩
    · rw [Table.has_put, Bool.or_eq_true, decide_eq_true_eq] at hn
      rcases hn with rfl | hn
      · exact .inr ⟨scope, _, Filled.gives_put ..⟩
      · exact (h.counted n hn).imp_right fun ⟨s, m, hg⟩ => ⟨s, m, hg.put hframe⟩
    · rcases Separate.gives_cons_put hg with hg | ⟨-, rfl, rfl⟩
      · exact (h.renamed hg).imp_right (List.mem_append_left _)
      · exact .inr (List.mem_append_right _ (List.mem_singleton_self _))
    · rcases List.mem_append.1 hmem with hmem | hmem
      · obtain ⟨s, hg, hclash⟩ := h.clashing hmem
        exact ⟨s, hg.put hframe, hclash.imp_right fun ⟨s', k, hne, hg'⟩ =>
          ⟨s', k, hne, hg'.put hframe⟩⟩
      · obtain ⟨rfl, rfl⟩ := Prod.mk.inj (List.mem_singleton.1 hmem)
        -- the name counts as declared, but not for this scope
        refine ⟨scope, Filled.gives_put .., (h.counted _ hcounted).imp_right fun ⟨s, k, hg⟩ => ?_⟩
        have hne : s ≠ scope := by
          rintro rfl
          obtain ⟨f, hf, hfind⟩ := hg
          rcases List.mem_cons.1 hf with hsame | hold
          · rw [(Prod.mk.inj hsame).2] at hfind
            rw [Table.has, hfind] at hframe
            cases hframe
          · exact hscope (List.mem_map_of_mem hold)
        exact ⟨s, k, hne, hg.put hframe⟩

theorem declareAll_cons (hscope : scope ∉ filled.map Prod.fst) (names : List String) :
    ∀ {r : Resolver} {frame : Frame}, Accounted reserved r ((scope, frame) :: filled) →
      Accounted reserved (r.declareAll frame names).1
        ((scope, (r.declareAll frame names).2) :: filled) := by
  induction names with
  | nil => intro r frame h; exact h
  | cons name rest ih =>
      intro r frame h
      rw [Resolver.declareAll]
      exact ih (h.declareIn hscope name)

/-- Only the counters and the renames matter. -/
theorem congr (h : Accounted reserved r filled) (hcounters : r'.counters = r.counters)
    (hrenames : r'.renames = r.renames) : Accounted reserved r' filled where
  counted := hcounters ▸ h.counted
  renamed := hrenames ▸ h.renamed
  clashing := hrenames ▸ h.clashing

/-- Filling the frame of one more scope. -/
theorem declareAll (h : Accounted reserved r filled) (hscope : scope ∉ filled.map Prod.fst)
    (names : List String) :
    Accounted reserved (r.declareAll [] names).1
      ((scope, (r.declareAll [] names).2) :: filled) := by
  have hempty : ∀ {s n m}, filled.Gives s n m ↔ Filled.Gives ((scope, []) :: filled) s n m := by
    refine ⟨Walk.Sound.gives_mono, ?_⟩
    rintro ⟨f, hmem, hfind⟩
    rcases List.mem_cons.1 hmem with heq | hold
    · rw [(Prod.mk.inj heq).2] at hfind
      cases hfind
    · exact ⟨f, hold, hfind⟩
  refine declareAll_cons hscope names ⟨?_, fun hg => h.renamed (hempty.2 hg), fun hmem => ?_⟩
  · simpa only [← hempty] using h.counted
  · simpa only [← hempty] using h.clashing hmem

end Accounted

theorem Resolver.renames_declareAll (names : List String) : ∀ (r : Resolver) (frame : Frame),
    r.renames <+: (r.declareAll frame names).1.renames := by
  induction names with
  | nil => intro r frame; exact List.prefix_rfl
  | cons name rest ih =>
      intro r frame
      have hrest := ih (r.declareIn frame name).1 (r.declareIn frame name).2
      rw [declareAll]
      refine List.IsPrefix.trans ?_ hrest
      rcases r.declareIn_cases frame name with
        ⟨-, h⟩ | ⟨-, -, counters, -, h⟩ | ⟨-, -, -, count, -, h⟩
      · exact ⟨[], by rw [h, List.append_nil]⟩
      · exact ⟨[], by rw [h, List.append_nil]⟩
      · rw [h]
        exact List.prefix_append ..

/-! ## Idle runs -/

/-- A walk that has renamed no binding has respelled no mention. -/
structure Walk.Counts (reserved : List String) (w : Walk) : Prop where
  /-- The renames have their reasons. -/
  accounted : Accounted reserved w.resolver w.filled
  /-- Mentions are respelled after bindings. -/
  idle : w.resolver.renames = [] → w.resolver.respelled = 0 ∧ w.resolver.edits = []

namespace Walk.Counts

variable {known reserved : List String} {w w' : Walk} {rest : List Event}

theorem step_enter {scope : Path} {names : List String} (h : w.Counts reserved)
    (hsound : w.Sound known reserved (.enter scope names :: rest))
    (hstep : w.step (.enter scope names) = .ok w') : w'.Counts reserved := by
  obtain ⟨hres, hnote⟩ := step_ok hstep
  rw [Resolver.step_enter] at hres
  have hnext := (Except.ok.inj hres).symm
  obtain ⟨counters, taken, renames, hframe⟩ := w.resolver.declareAll_frame names []
  have hfilled : w'.filled = (scope, (w.resolver.declareAll [] names).2) :: w.filled := by
    rw [hnote, hnext]
    rfl
  have hscope : scope ∉ w.filled.map Prod.fst := fun hmem =>
    (List.nodup_append.1 hsound.scopes_nodup).2.2 scope hmem scope List.mem_cons_self rfl
  constructor
  · rw [hfilled, hnext]
    exact (h.accounted.declareAll hscope names).congr rfl rfl
  · intro hnil
    have hprefix := w.resolver.renames_declareAll names []
    rw [hnext] at hnil
    rw [show (w.resolver.declareAll [] names).1.renames = [] from hnil] at hprefix
    rw [hnext, hframe]
    exact h.idle (List.prefix_nil.1 hprefix)

theorem step_mention {path : Path} {name : String} (h : w.Counts reserved)
    (hsound : w.Sound known reserved (.mention path name :: rest))
    (hstep : w.step (.mention path name) = .ok w') : w'.Counts reserved := by
  obtain ⟨hres, hnote⟩ := step_ok hstep
  have hfilled : w'.filled = w.filled := by rw [hnote]; rfl
  rcases w.referent_cases name hsound.open_length with
    ⟨-, hlookup⟩ | ⟨scope, frame, new, -, hopen, hfind, hlookup⟩
  · rw [Resolver.step_mention_free path hlookup] at hres
    have hnext := (Except.ok.inj hres).symm
    refine ⟨?_, by rw [hnext]; exact h.idle⟩
    rw [hfilled, hnext]
    exact h.accounted.congr rfl rfl
  · rw [Resolver.step_mention_bound path hlookup] at hres
    have hnext := (Except.ok.inj hres).symm
    have hgives : w.filled.Gives scope name new := ⟨frame, hsound.open_filled _ hopen, hfind⟩
    by_cases hnew : new ≠ name ∧ ¬ w.resolver.dryRun
    · rw [if_pos hnew] at hnext
      refine ⟨?_, fun hnil => ?_⟩
      · rw [hfilled, hnext]
        exact h.accounted.congr rfl rfl
      · -- the binding was renamed before
        rw [hnext] at hnil
        have hmem := (h.accounted.renamed hgives).resolve_left hnew.1
        rw [show w.resolver.renames = [] from hnil] at hmem
        exact absurd hmem List.not_mem_nil
    · rw [if_neg hnew] at hnext
      exact ⟨by rw [hfilled, hnext]; exact h.accounted, by rw [hnext]; exact h.idle⟩

theorem step {event : Event} (h : w.Counts reserved)
    (hsound : w.Sound known reserved (event :: rest)) (hstep : w.step event = .ok w') :
    w'.Counts reserved := by
  cases event with
  | declare _ | broken _ =>
      exact absurd (hsound.plain _ List.mem_cons_self) (by simp [Event.isPlain])
  | enter scope names => exact h.step_enter hsound hstep
  | mention path name => exact h.step_mention hsound hstep
  | leave =>
      obtain ⟨hres, hnote⟩ := step_ok hstep
      obtain ⟨frame, frames, -, hnext⟩ := Resolver.step_leave hres
      rw [hnext] at hnote
      rw [hnote]
      exact ⟨h.accounted.congr rfl rfl, h.idle⟩

theorem follow {done : List Event} (h : w.Counts reserved)
    (hsound : w.Sound known reserved (done ++ rest)) (hrun : w.follow done = .ok w') :
    w'.Counts reserved := by
  induction done generalizing w with
  | nil => rw [← Except.ok.inj hrun]; exact h
  | cons event done ih =>
      obtain ⟨next, hstep, hrun⟩ := Walk.follow_cons_ok hrun
      exact ih (h.step hsound hstep) (hsound.step hstep) hrun

end Walk.Counts

theorem Walk.opened_counts (known reserved names : List String) :
    (Walk.opened known reserved false names).Counts reserved := by
  have hstart : Accounted reserved (.start known reserved false) [] := by
    refine ⟨fun n hn => .inl ?_, ?_, fun hmem => absurd hmem List.not_mem_nil⟩
    · rw [Resolver.start, Table.has_ofList, List.any_map, List.any_eq_true] at hn
      obtain ⟨m, hm, heq⟩ := hn
      rw [← beq_iff_eq.1 heq]
      exact hm
    · rintro s n m ⟨f, hf, -⟩
      exact absurd hf List.not_mem_nil
  constructor
  · exact (hstart.declareAll List.not_mem_nil names).congr rfl rfl
  · intro _
    obtain ⟨counters, taken, renames, hframe⟩ :=
      (Resolver.start known reserved false).declareAll_frame names []
    simp only [Walk.opened, hframe]
    exact ⟨rfl, rfl⟩

/-! ## What scopes declare -/

theorem declaredIn_rename (f : String → String) (s : Path) (events : List Event) :
    declaredIn s (events.map (Event.rename f)) = (declaredIn s events).map f := by
  induction events with
  | nil => rfl
  | cons event rest ih =>
      rw [List.map_cons, declaredIn_cons, declaredIn_cons, ih, List.map_append]
      congr 1
      cases event with
      | declare names | enter site names =>
          simp only [Event.rename, Event.declaredFor]
          split <;> rfl
      | leave | mention _ _ | broken _ => rfl

theorem gives_declareAll (filled : Filled) (r : Resolver) (scope s : Path) (names : List String)
    (n : String) :
    (∃ m, Filled.Gives ((scope, (r.declareAll [] names).2) :: filled) s n m) ↔
      (scope = s ∧ n ∈ names) ∨ ∃ m, filled.Gives s n m := by
  have hhas : (∃ m, (r.declareAll [] names).2.find? n = some m) ↔ n ∈ names := by
    rw [← Table.has_eq_true_iff, Walk.Tracks.declared, List.contains_iff_mem]
  constructor
  · rintro ⟨m, f, hf, hfind⟩
    rcases List.mem_cons.1 hf with heq | hold
    · obtain ⟨rfl, rfl⟩ := Prod.mk.inj heq
      exact .inl ⟨rfl, hhas.1 ⟨m, hfind⟩⟩
    · exact .inr ⟨m, f, hold, hfind⟩
  · rintro (⟨rfl, hn⟩ | ⟨m, hg⟩)
    · obtain ⟨m, hm⟩ := hhas.2 hn
      exact ⟨m, _, List.mem_cons_self, hm⟩
    · exact ⟨m, Walk.Sound.gives_mono hg⟩

/-- A run gives names to what the scopes declare. -/
theorem Walk.gives_follow {w w' : Walk} {events : List Event}
    (hplain : ∀ e ∈ events, e.isPlain = true) (hrun : w.follow events = .ok w') (s : Path)
    (n : String) :
    (∃ m, w'.filled.Gives s n m) ↔ n ∈ declaredIn s events ∨ ∃ m, w.filled.Gives s n m := by
  induction events generalizing w with
  | nil =>
      rw [← Except.ok.inj hrun]
      simp [declaredIn]
  | cons event rest ih =>
      obtain ⟨next, hstep, hrun⟩ := Walk.follow_cons_ok hrun
      rw [ih (fun e he => hplain e (List.mem_cons_of_mem _ he)) hrun, declaredIn_cons,
        List.mem_append, or_comm (a := n ∈ event.declaredFor s), or_assoc]
      refine or_congr_right ?_
      obtain ⟨hres, hnote⟩ := step_ok hstep
      cases event with
      | declare _ | broken _ =>
          exact absurd (hplain _ List.mem_cons_self) (by simp [Event.isPlain])
      | leave | mention _ _ =>
          rw [hnote]
          exact (or_iff_right List.not_mem_nil).symm
      | enter scope names =>
          rw [Resolver.step_enter] at hres
          rw [hnote, ← Except.ok.inj hres]
          refine (gives_declareAll ..).trans (or_congr_left ?_)
          rw [Event.declaredFor]
          split
          · rename_i heq
            exact and_iff_right heq
          · rename_i hne
            exact ⟨fun h => absurd h.1 hne, fun h => absurd h List.not_mem_nil⟩

/-- No name is declared by two scopes, and no reserved name by any. -/
structure Unshadowed (reserved : List String) (events : List Event) : Prop where
  /-- A name tells the scope that declares it. -/
  scope_unique : ∀ {n s s'}, n ∈ declaredIn s events → n ∈ declaredIn s' events → s = s'
  /-- A declared name is not reserved. -/
  not_reserved : ∀ {n s}, n ∈ declaredIn s events → n ∉ reserved

section Runs

variable {t : Tree} {res : Resolution} {dry real : Walk}

/-- The real run starts with the program's own names, and follows what comes after them. -/
theorem Runs.opened (h : Runs t res dry real) (hprogram : t.isProgram = true) :
    ∃ known names body, Regular t names body ∧
      (Walk.opened known res.globals false names).Sound known res.globals (body ++ []) ∧
      (Walk.opened known res.globals false names).follow body = .ok real := by
  obtain ⟨known, hknown, hsound⟩ := h.sound
  obtain ⟨fields, rfl, hformed⟩ := exists_fields_of_isProgram hprogram
  obtain ⟨known', hknown', hocc⟩ := identifierNames_ok hformed rfl
  obtain rfl := Except.ok.inj (hknown'.symm.trans hknown)
  obtain ⟨names, body, hregular⟩ := regular_events hprogram
  obtain ⟨w, hw, hwalk⟩ := walkThrough_program hregular hknown res.globals false
  obtain rfl := Except.ok.inj (hwalk.symm.trans h.real_walk)
  have hopened := Walk.opened_sound hregular hformed hocc hsound.separate.reserved_known
  rw [← List.append_nil body] at hopened
  exact ⟨known', names, body, hregular, hopened, hw⟩

/-- The real run gives names to what the scopes declare, and accounts for its renames. -/
theorem Runs.accounts (h : Runs t res dry real) (hprogram : t.isProgram = true) :
    real.Counts res.globals ∧
      ∀ s n, (∃ m, real.filled.Gives s n m) ↔ n ∈ declaredIn s (events t) := by
  obtain ⟨known, names, body, hregular, hopened, hw⟩ := h.opened hprogram
  refine ⟨(Walk.opened_counts ..).follow hopened hw, fun s n => ?_⟩
  rw [Walk.gives_follow hregular.nested.isPlain hw, hregular.events_eq, declaredIn_cons,
    List.mem_append, or_comm]
  refine or_congr_left ?_
  refine (gives_declareAll [] _ [] s names n).trans ?_
  rw [Event.declaredFor]
  constructor
  · rintro (⟨rfl, hn⟩ | ⟨m, f, hf, -⟩)
    · rw [if_pos rfl]
      exact hn
    · exact absurd hf List.not_mem_nil
  · intro hn
    split at hn
    · rename_i heq
      exact .inl ⟨heq.symm, hn⟩
    · exact absurd hn List.not_mem_nil

/-- Did resolving the tree change nothing? -/
def Idle (t : Tree) (res : Resolution) : Prop :=
  res.resolver.renames = [] ∧ res.resolver.respelled = 0 ∧ res.tree = t

/-- **A run changes nothing** exactly if no name is declared twice and no free name is
declared. -/
theorem Runs.idle_iff (h : Runs t res dry real) (hprogram : t.isProgram = true) :
    Idle t res ↔ Unshadowed res.globals (events t) := by
  obtain ⟨hcounts, hgives⟩ := h.accounts hprogram
  obtain ⟨known, -, hsound⟩ := h.sound
  constructor
  · rintro ⟨hnil, -, -⟩
    rw [h.resolver_eq] at hnil
    have hkept : ∀ {s n m}, real.filled.Gives s n m → real.filled.Gives s n n := by
      intro s n m hg
      rcases hcounts.accounted.renamed hg with rfl | hmem
      · exact hg
      · rw [show real.resolver.renames = [] from hnil] at hmem
        exact absurd hmem List.not_mem_nil
    constructor
    · intro n s s' hn hn'
      obtain ⟨m, hm⟩ := (hgives s n).2 hn
      obtain ⟨m', hm'⟩ := (hgives s' n).2 hn'
      exact (hsound.separate.distinct (hkept hm) (hkept hm')).1
    · intro n s hn
      obtain ⟨m, hm⟩ := (hgives s n).2 hn
      exact (hsound.separate.spent (hkept hm)).2.1
  · intro hunshadowed
    have hnil : real.resolver.renames = [] := by
      refine List.eq_nil_iff_forall_not_mem.2 fun ⟨n, m⟩ hmem => ?_
      obtain ⟨s, hg, hclash⟩ := hcounts.accounted.clashing hmem
      have hn := (hgives s n).1 ⟨m, hg⟩
      rcases hclash with hreserved | ⟨s', k, hne, hk⟩
      · exact hunshadowed.not_reserved hn hreserved
      · exact hne (hunshadowed.scope_unique ((hgives s' n).1 ⟨k, hk⟩) hn)
    obtain ⟨hrespelled, hedits⟩ := hcounts.idle hnil
    rw [Idle, h.resolver_eq]
    refine ⟨hnil, hrespelled, ?_⟩
    have hformed := isFormed_of_isProgram hprogram
    rw [h.tree_eq_respell hformed, hedits]
    exact respell_eq_self hformed fun _ _ => rfl

end Runs

/-! ## Where declarations stand -/

theorem Nested.stack_length_le {events : List Event} (h : Nested events) {stack : Stack}
    {m : Mention} (hm : m ∈ contexts stack events) :
    m.stack.length ≤ (enteredScopes events).length + stack.length := by
  obtain ⟨inner, hinner, hsub, -⟩ := h.stack_scopes hm
  have hlength := hsub.length_le
  rw [List.length_reverse, List.length_map] at hlength
  rw [hinner, List.length_append]
  omega

namespace Twice

variable {t : Tree} {dry dry' : Walk} {labels : List String} {body : List Event}
  {f g : String → String}

theorem stack_root (h : Twice t dry dry' labels body f g) {m : Mention}
    (hm : m ∈ contexts [([], labels)] body) {inner outer : Stack} {scope : Path × List String}
    (hstack : m.stack = inner ++ scope :: outer) (houter : outer ≠ []) :
    ∃ outer', outer = outer' ++ [([], labels)] := by
  obtain ⟨inner', hinner'⟩ := h.regular.nested.stack_suffix hm
  obtain ⟨outer', last, rfl⟩ := (List.eq_nil_or_concat outer).resolve_left houter
  rw [List.concat_eq_append] at hstack ⊢
  have heq : (inner ++ scope :: outer') ++ [last] = inner' ++ [([], labels)] := by
    rw [← hinner', hstack]
    simp
  exact ⟨outer', by rw [(List.append_inj' heq rfl).2]⟩

/-- **If no two scopes declare the same new name, every declaration was found in the scope
it declares for.**  The induction is on how many scopes can still lie further in: were a
declaration found in one of those, that scope would have a declaration of its own, found
there by induction, and both would have got the same name. -/
theorem found_of_unshadowed (h : Twice t dry dry' labels body f g)
    (hunique : ∀ {l l' s s'}, l ∈ declaredIn s (events t.labelled) →
      l' ∈ declaredIn s' (events t.labelled) → g l = g l' → s = s') {d : Mention}
    {inner outer : Stack} {s : Path} {declared : List String}
    (hd : d ∈ contexts [([], labels)] body) (hstack : d.stack = inner ++ (s, declared) :: outer)
    (hname : d.name ∈ declared) : ∃ n, d.referentUnder f = .bound s n := by
  induction hdepth : (enteredScopes body).length - outer.length using Nat.strongRecOn
    generalizing d inner outer s declared with
  | ind depth ih =>
      have hown : f d.name ∈ declared.map f := List.mem_map_of_mem hname
      cases href : d.referentUnder f with
      | free n =>
          have hscope : (s, declared) ∈ d.stack := by rw [hstack]; simp
          exact absurd hown ((referentUnder_eq_free.1 href).2 _ hscope)
      | bound s' n =>
          obtain ⟨hn, inner', declared', outer', hstack', hin, hinner'⟩ :=
            referentUnder_eq_bound.1 href
          refine ⟨n, ?_⟩
          rcases List.append_eq_append_iff.1 (hstack.symm.trans hstack') with
            ⟨more, hmore, hcons⟩ | ⟨more, hmore, hcons⟩
          · cases more with
            | nil => rw [(Prod.mk.inj (List.cons.inj hcons).1).1]
            | cons scope more =>
                obtain ⟨rfl, -⟩ := List.cons.inj hcons
                exact absurd hown (hinner' (s, declared) (by rw [hmore]; simp))
          · cases more with
            | nil => rw [(Prod.mk.inj (List.cons.inj hcons).1).1]
            | cons scope more =>
                obtain ⟨rfl, houter⟩ := List.cons.inj hcons
                rw [List.append_eq] at houter
                -- the declaration of the scope it was found in
                obtain ⟨l, hl, hfl⟩ := List.mem_map.1 hin
                obtain ⟨outer₀, hroot⟩ := h.stack_root hd hstack' (by rw [houter]; simp)
                rw [hroot] at hstack'
                obtain ⟨d', hd', rfl, inner'', hstack''⟩ :=
                  h.regular.nested.mentioned_inside hd hstack' hl
                rw [← hroot] at hstack' hstack''
                have hshorter : (enteredScopes body).length - outer'.length < depth := by
                  have hlength := h.regular.nested.stack_length_le hd
                  rw [hstack'] at hlength
                  have houter' := congrArg List.length houter
                  simp only [List.length_append, List.length_cons, List.length_nil]
                    at hlength houter'
                  omega
                obtain ⟨n', href'⟩ := ih _ hshorter hd' hstack'' hl rfl
                have hsame : d'.referentUnder f = d.referentUnder f := by
                  rw [href', href, (referentUnder_eq_bound.1 href').1, hfl, hn]
                have hscope : (s, declared) ∈ d.stack := by rw [hstack]; simp
                have hscope' : (s', declared') ∈ d'.stack := by rw [hstack'']; simp
                rw [hunique (h.declared_of_stack hd' hscope' hl)
                  (h.declared_of_stack hd hscope hname) ((h.separate d' hd' d hd).2 hsame)]

end Twice

/-! ## The second run -/

/-- Is every declaration found in the scope it declares for? -/
def FoundWhereDeclared (t : Tree) (dry : Walk) : Prop :=
  ∀ d s, Declares t s d → ∃ n, (d, .bound s n) ∈ dry.referents

theorem Twice.found_iff {t : Tree} {dry dry' : Walk} {labels : List String} {body : List Event}
    {f g : String → String} (h : Twice t dry dry' labels body f g)
    (hprogram : t.isProgram = true) :
    FoundWhereDeclared t dry ↔ ∀ d ∈ contexts [([], labels)] body, ∀ s,
      d.name ∈ declaredIn s (events t.labelled) → ∃ n, d.referentUnder f = .bound s n := by
  constructor
  · intro hfound d hd s hl
    obtain ⟨-, -, hlabel⟩ := occurrence_of_context hprogram h.regular hd
    rw [hlabel] at hl
    obtain ⟨n, hn⟩ := hfound d.path s hl
    obtain ⟨m, hm, hpath, href⟩ := h.mem_before.1 hn
    rw [h.unique m hm d hd hpath] at href
    exact ⟨n, href⟩
  · intro hfound p s hdeclares
    obtain ⟨d, hd, hname, -⟩ := h.declarer hdeclares
    obtain ⟨name, hocc, hlabel⟩ := occurrence_of_context hprogram h.regular hd
    have hpath : d.path = p := label_inj (List.mem_map_of_mem hocc) (hlabel.symm.trans hname)
    obtain ⟨n, hn⟩ := hfound d hd s (by rw [hname]; exact hdeclares)
    exact ⟨n, h.mem_before.2 ⟨d, hd, hpath, hn⟩⟩

theorem Runs.idle_again_iff {t : Tree} {res res' : Resolution} {dry real dry' real' : Walk}
    (hprogram : t.isProgram = true) (hruns : Runs t res dry real)
    (hruns' : Runs res.tree res' dry' real') :
    Idle res.tree res' ↔ FoundWhereDeclared t dry := by
  have hrespell := hruns.tree_eq_respell (isFormed_of_isProgram hprogram)
  have hprogram' : res.tree.isProgram = true := by
    rw [hrespell]
    exact isProgram_respell hprogram
  obtain ⟨labels, body, htwice⟩ := hruns.twice hprogram hruns'
  have hdeclared : ∀ s, declaredIn s (events res.tree) =
      (declaredIn s (events t.labelled)).map (t.spelledAs real.spelling) := by
    intro s
    rw [← declaredIn_rename, ← events_respell hprogram, hrespell]
    rfl
  rw [hruns'.idle_iff hprogram', htwice.found_iff hprogram]
  constructor
  · intro hunshadowed d hd s hl
    obtain ⟨d', hd', hname, inner, declared, outer, hstack, hmem⟩ := htwice.declarer hl
    obtain rfl := htwice.eq_of_name hprogram hd' hd hname
    refine htwice.found_of_unshadowed (fun {l l' s s'} hl hl' heq => ?_) hd' hstack hmem
    refine hunshadowed.scope_unique ((hdeclared s).symm ▸ List.mem_map_of_mem hl) ?_
    rw [heq, hdeclared]
    exact List.mem_map_of_mem hl'
  · intro hfound
    constructor
    · intro n s s' hn hn'
      rw [hdeclared] at hn hn'
      obtain ⟨l, hl, rfl⟩ := List.mem_map.1 hn
      obtain ⟨l', hl', heq⟩ := List.mem_map.1 hn'
      obtain ⟨d, hd, rfl, -⟩ := htwice.declarer hl
      obtain ⟨d', hd', rfl, -⟩ := htwice.declarer hl'
      obtain ⟨k, hk⟩ := hfound d hd s hl
      obtain ⟨k', hk'⟩ := hfound d' hd' s' hl'
      have hsame := (htwice.separate d' hd' d hd).1 heq
      rw [hk, hk'] at hsame
      exact (Referent.bound.inj hsame).1.symm
    · intro n s hn hfree
      rw [hdeclared] at hn
      obtain ⟨l, hl, rfl⟩ := List.mem_map.1 hn
      obtain ⟨d, hd, rfl, -⟩ := htwice.declarer hl
      obtain ⟨k, hk⟩ := hfound d hd s hl
      rw [hruns'.globals_eq, mem_sorted, hruns'.notes_free.free] at hfree
      obtain ⟨p, hp⟩ := (mem_foldl_noteFree hfree).resolve_left List.not_mem_nil
      obtain ⟨m, hm, rfl, href⟩ := htwice.mem_after.1 hp
      -- the mention means what the declaration does, and so keeps its scope
      have hsame := (htwice.separate d hd m hm).1 (referentUnder_eq_free.1 href).1
      obtain ⟨-, -, hlabel⟩ := occurrence_of_context hprogram htwice.regular hd
      have hdeclares : Declares t s d.path := by
        rw [hlabel] at hl
        exact hl
      obtain ⟨k', hk'⟩ := (htwice.bound_stays_iff hprogram
        (htwice.mem_before.2 ⟨m, hm, rfl, hsame.symm.trans hk⟩)).2
          ⟨d.path, hdeclares, htwice.mem_before.2 ⟨d, hd, rfl, hk⟩⟩
      obtain ⟨m', hm', hpath, href'⟩ := htwice.mem_after.1 hk'
      rw [htwice.unique m' hm' m hm hpath, href] at href'
      cases href'

/-- A program resolved, and the outcome resolved again. -/
structure Rerun (t : Tree) (res res' : Resolution) (dry : Walk) : Prop where
  /-- Resolving the program succeeds. -/
  resolved : resolve t = .ok res
  /-- The dry run goes through the program. -/
  before : walkThrough t [] true = .ok dry
  /-- Resolving the outcome succeeds. -/
  again : resolve res.tree = .ok res'
  /-- That changes nothing exactly if every declaration of the program is found where it
  declares. -/
  idle_iff : Idle res.tree res' ↔ FoundWhereDeclared t dry

/-- **Resolving is idempotent** exactly on the programs whose declarations are all found in
the scopes they declare for. -/
theorem resolve_again_iff {goal : Grammar.Goal} {source : String} {t : Tree}
    (h : Grammar.parse goal source = .ok t) : ∃ res res' dry, Rerun t res res' dry := by
  have hprogram := Grammar.isProgram_of_parse h
  obtain ⟨res, dry, real, hruns⟩ := runs_program hprogram
  have hprogram' : res.tree.isProgram = true := by
    rw [hruns.tree_eq_respell (isFormed_of_isProgram hprogram)]
    exact isProgram_respell hprogram
  obtain ⟨res', dry', real', hruns'⟩ := runs_program hprogram'
  exact ⟨res, res', dry,
    { resolved := hruns.resolved
      before := hruns.dry_walk
      again := hruns'.resolved
      idle_iff := hruns.idle_again_iff hprogram hruns' }⟩

set_option maxRecDepth 100000 in
/-- A parameter shadows a variable. -/
theorem resolve_again_parameter :
    ∃ t, Grammar.parse .script "var a; function f(a) { return a }" = .ok t ∧
      ∃ res res' dry, Rerun t res res' dry := by
  have hok :
      (Grammar.parse .script "var a; function f(a) { return a }").toOption.isSome = true := by
    decide +kernel
  cases hparse : Grammar.parse .script "var a; function f(a) { return a }" with
  | error e => rw [hparse] at hok; cases hok
  | ok t => exact ⟨t, rfl, resolve_again_iff hparse⟩

set_option maxRecDepth 100000 in
/-- A variable of a function and a function declared in its body: the body finds both
declarations, so both scopes declare the same name again. -/
theorem resolve_again_renames :
    ∃ t res res', Grammar.parse .script "function f() { var a; function a() {} }" = .ok t ∧
      resolve t = .ok res ∧ res.resolver.renames = [("a", "a1")] ∧
      resolve res.tree = .ok res' ∧ res'.resolver.renames = [("a1", "a11")] := by
  have hrun : ((Grammar.parse .script
      "function f() { var a; function a() {} }").toOption.bind fun t =>
        (resolve t).toOption.bind fun res => (resolve res.tree).toOption.map fun res' =>
          (res.resolver.renames, res'.resolver.renames)) =
      some ([("a", "a1")], [("a1", "a11")]) := by
    decide +kernel
  obtain ⟨t, hparse, hrest⟩ := Option.bind_eq_some_iff.1 hrun
  obtain ⟨res, hres, hrest⟩ := Option.bind_eq_some_iff.1 hrest
  obtain ⟨res', hres', hrenames⟩ := Option.map_eq_some_iff.1 hrest
  obtain ⟨hfirst, hsecond⟩ := Prod.mk.inj hrenames
  exact ⟨t, res, res', ok_of_toOption hparse, ok_of_toOption hres, hfirst, ok_of_toOption hres',
    hsecond⟩

end NameRecovery.Scope
