import NameRecovery.Proofs.Scope.Spelling

/-!
# Scopes are nested

The events of a program are nested: every scope that is entered is left again, and
all names it declares are mentioned inside it.  On such a list the resolver cannot
fail, and it comes back to the frames it started with.

A mention is decided by the scopes open around it alone.  `contexts` lists the
mentions with these scopes, and `meaning` says what a mention means in them; every
run, dry or real, finds just that.

* `Nested.follow` — a walk over nested events ends with the scopes it began with;
* `Walk.Tracks.follow` — the referents of a walk are the meanings in their contexts;
* `Nested.mentioned_inside` — a name that an open scope declares is mentioned in it.
-/

namespace NameRecovery.Scope

/-- The name of a mention. -/
def Event.mentionName? : Event → Option String
  | .mention _ name => some name
  | _ => none

/-- The names mentioned, in order. -/
def mentionNames (events : List Event) : List String :=
  events.filterMap Event.mentionName?

/-- The path and the name of a mention. -/
def Event.mention? : Event → Option (Path × String)
  | .mention path name => some (path, name)
  | _ => none

/-- The mentions among events, in order. -/
def mentions (events : List Event) : List (Path × String) :=
  events.filterMap Event.mention?

theorem mentions_append (events events' : List Event) :
    mentions (events ++ events') = mentions events ++ mentions events' :=
  List.filterMap_append

theorem mentionNames_eq (events : List Event) :
    mentionNames events = (mentions events).map Prod.snd := by
  rw [mentionNames, mentions, List.map_filterMap]
  refine List.filterMap_congr fun e _ => ?_
  cases e <;> rfl

theorem mentionPaths_eq (events : List Event) :
    mentionPaths events = (mentions events).map Prod.fst := by
  rw [mentionPaths, mentions, List.map_filterMap]
  refine List.filterMap_congr fun e _ => ?_
  cases e <;> rfl

/-- Events in which every scope is left after it was entered and mentions the names it
declares. -/
inductive Nested : List Event → Prop where
  | nil : Nested []
  | mention (path : Path) (name : String) : Nested [.mention path name]
  | scope {site : Path} {names : List String} {body : List Event} :
      Nested body → (∀ n ∈ names, n ∈ mentionNames body) →
      Nested (.enter site names :: body ++ [.leave])
  | append {first rest : List Event} : Nested first → Nested rest → Nested (first ++ rest)

theorem Nested.isPlain {events : List Event} (h : Nested events) :
    ∀ e ∈ events, e.isPlain = true := by
  induction h with
  | nil => intro e he; exact absurd he List.not_mem_nil
  | mention path name => intro e he; rw [List.mem_singleton.1 he]; rfl
  | scope _ _ ih =>
      intro e he
      rcases List.mem_cons.1 he with rfl | he
      · rfl
      · rcases List.mem_append.1 he with he | he
        · exact ih e he
        · rw [List.mem_singleton.1 he]; rfl
  | append _ _ ih₁ ih₂ =>
      intro e he
      rcases List.mem_append.1 he with he | he
      · exact ih₁ e he
      · exact ih₂ e he

/-! ## Walks over nested events -/

namespace Walk

theorem follow_append (w : Walk) (first rest : List Event) :
    w.follow (first ++ rest) = (w.follow first).bind fun next => next.follow rest := by
  induction first generalizing w with
  | nil => rfl
  | cons event first ih =>
      simp only [List.cons_append, Walk.follow, bind, Except.bind]
      cases w.step event with
      | error e => rfl
      | ok next => exact ih next

theorem follow_cons {w next : Walk} {event : Event} (rest : List Event)
    (h : w.step event = .ok next) : w.follow (event :: rest) = next.follow rest := by
  simp only [Walk.follow, h, bind, Except.bind]

end Walk

theorem Resolver.step_mention_frames (r : Resolver) (path : Path) (name : String) :
    ∃ next, r.step (.mention path name) = .ok next ∧ next.frames = r.frames := by
  cases hlookup : r.lookup name with
  | none => exact ⟨_, step_mention_free path hlookup, rfl⟩
  | some new =>
      refine ⟨_, step_mention_bound path hlookup, ?_⟩
      by_cases hnew : new ≠ name ∧ ¬ r.dryRun
      · rw [if_pos hnew]
      · rw [if_neg hnew]

/-- A walk over nested events does not fail, and ends with the scopes it began with. -/
theorem Nested.follow {events : List Event} (h : Nested events) : ∀ w : Walk,
    ∃ w', w.follow events = .ok w' ∧ w'.resolver.frames = w.resolver.frames ∧
      w'.sites = w.sites := by
  induction h with
  | nil => intro w; exact ⟨w, rfl, rfl, rfl⟩
  | mention path name =>
      intro w
      obtain ⟨next, hstep, hframes⟩ := w.resolver.step_mention_frames path name
      refine ⟨_, Walk.follow_cons [] (Walk.step_of_resolver hstep), ?_, rfl⟩
      rw [Walk.note_resolver, hframes]
  | @scope site names body _ _ ih =>
      intro w
      have henter := Walk.step_of_resolver (w.resolver.step_enter site names)
      obtain ⟨inner, hinner, hframes, hsites⟩ := ih _
      rw [List.cons_append, Walk.follow_cons _ henter, Walk.follow_append, hinner]
      rw [Walk.note_resolver] at hframes
      have hleave : inner.resolver.step .leave =
          .ok { inner.resolver with frames := w.resolver.frames } := by
        simp only [Resolver.step, Resolver.pop, hframes, bind, Except.bind, pure, Except.pure]
      refine ⟨_, Walk.follow_cons [] (Walk.step_of_resolver hleave), rfl, ?_⟩
      simp only [Walk.note, hsites, List.tail_cons]
  | append _ _ ih₁ ih₂ =>
      intro w
      obtain ⟨mid, hmid, hframes₁, hsites₁⟩ := ih₁ w
      obtain ⟨w', hw', hframes₂, hsites₂⟩ := ih₂ mid
      refine ⟨w', ?_, hframes₂.trans hframes₁, hsites₂.trans hsites₁⟩
      rw [Walk.follow_append, hmid]
      exact hw'

/-! ## Mentions in their contexts -/

/-- Open scopes, innermost first: the node of each, and the names it declares. -/
abbrev Stack := List (Path × List String)

/-- A mention and the scopes open around it. -/
structure Mention where
  /-- The path of the node. -/
  path : Path
  /-- The name. -/
  name : String
  /-- The open scopes. -/
  stack : Stack

/-- What a mention of the name means inside the scopes. -/
def meaning (stack : Stack) (name : String) : Referent :=
  match stack.find? fun scope => scope.2.contains name with
  | some scope => .bound scope.1 name
  | none => .free name

/-- What a mention means. -/
def Mention.referent (m : Mention) : Referent :=
  meaning m.stack m.name

/-- The mentions among events, each with the scopes open around it. -/
def contexts (stack : Stack) : List Event → List Mention
  | [] => []
  | .enter scope names :: rest => contexts ((scope, names) :: stack) rest
  | .leave :: rest => contexts stack.tail rest
  | .mention path name :: rest => ⟨path, name, stack⟩ :: contexts stack rest
  | .declare _ :: rest | .broken _ :: rest => contexts stack rest

@[simp] theorem meaning_name (stack : Stack) (name : String) : (meaning stack name).name = name := by
  rw [meaning]
  cases stack.find? fun scope => scope.2.contains name <;> rfl

theorem contexts_mentions (stack : Stack) (events : List Event) :
    ((contexts stack events).map fun m => (m.path, m.name)) = mentions events := by
  induction events generalizing stack with
  | nil => rfl
  | cons event rest ih =>
      cases event with
      | mention path name => exact congrArg ((path, name) :: ·) (ih stack)
      | declare _ | broken _ => exact ih stack
      | enter scope names => exact ih _
      | leave => exact ih _

theorem contexts_names (stack : Stack) (events : List Event) :
    (contexts stack events).map Mention.name = mentionNames events := by
  rw [mentionNames_eq, ← contexts_mentions stack, List.map_map]
  rfl

/-- The frames and nodes of a walk are those of the scopes. -/
structure Walk.Tracks (w : Walk) (stack : Stack) : Prop where
  /-- The open nodes are those of the scopes. -/
  sites : w.sites = stack.map Prod.fst
  /-- A frame has the names its scope declares. -/
  frames : List.Forall₂ (fun frame scope => ∀ n, frame.has n = scope.2.contains n)
    w.resolver.frames stack

namespace Walk.Tracks

variable {w w' : Walk} {stack : Stack}

/-- A walk finds a mention where the scopes say. -/
theorem referent_eq (h : w.Tracks stack) (name : String) :
    w.referent name = meaning stack name := by
  obtain ⟨hsites, hframes⟩ := h
  rw [Walk.referent, meaning, hsites]
  clear hsites
  generalize w.resolver.frames = frames at hframes
  induction hframes with
  | nil => rfl
  | @cons frame scope frames stack hhas _ ih =>
      rw [List.map_cons, List.zip_cons_cons, List.find?_cons, List.find?_cons, hhas name]
      cases scope.2.contains name with
      | true => rfl
      | false => exact ih

/-- A frame filled with names has just these. -/
theorem declared (r : Resolver) (names : List String) (n : String) :
    (r.declareAll [] names).2.has n = names.contains n := by
  rw [Resolver.has_declareAll, Table.has_nil, Bool.false_or]

theorem enter (h : w.Tracks stack) {scope : Path} {names : List String}
    (hstep : w.step (.enter scope names) = .ok w') : w'.Tracks ((scope, names) :: stack) := by
  obtain ⟨hres, hnote⟩ := step_ok hstep
  rw [Resolver.step_enter] at hres
  have hnext := (Except.ok.inj hres).symm
  refine ⟨?_, ?_⟩
  · rw [hnote, List.map_cons, ← h.sites]
    rfl
  · rw [hnext]
    exact .cons (declared w.resolver names) h.frames

theorem leave (h : w.Tracks stack) (hstep : w.step .leave = .ok w') : w'.Tracks stack.tail := by
  obtain ⟨hres, hnote⟩ := step_ok hstep
  obtain ⟨frame, frames, hframes, hnext⟩ := Resolver.step_leave hres
  have hopen := h.frames
  rw [hframes] at hopen
  cases hopen with
  | cons _ hopen =>
      refine ⟨?_, by rw [hnext]; exact hopen⟩
      rw [hnote]
      simp only [note, h.sites, List.map_cons, List.tail_cons]

theorem mention (h : w.Tracks stack) {path : Path} {name : String}
    (hstep : w.step (.mention path name) = .ok w') : w'.Tracks stack := by
  obtain ⟨hres, hnote⟩ := step_ok hstep
  obtain ⟨next, hnext, hframes⟩ := w.resolver.step_mention_frames path name
  have hsame : w'.resolver = next := Except.ok.inj (hres.symm.trans hnext)
  refine ⟨?_, by rw [hsame, hframes]; exact h.frames⟩
  rw [hnote, ← h.sites]
  rfl

/-- **Every run finds the same referents**: those the open scopes say. -/
theorem follow {events : List Event} (h : w.Tracks stack)
    (hplain : ∀ e ∈ events, e.isPlain = true) (hrun : w.follow events = .ok w') :
    w'.referents =
      w.referents ++ (contexts stack events).map fun m => (m.path, m.referent) := by
  induction events generalizing w stack with
  | nil => rw [← Except.ok.inj hrun]; simp [contexts]
  | cons event rest ih =>
      have hrest : ∀ e ∈ rest, e.isPlain = true := fun e he =>
        hplain e (List.mem_cons_of_mem _ he)
      obtain ⟨next, hstep, hnext⟩ := Walk.follow_cons_ok hrun
      have hnote := (step_ok hstep).2
      cases event with
      | declare _ | broken _ =>
          exact absurd (hplain _ (List.mem_cons_self ..)) (by simp [Event.isPlain])
      | enter scope names =>
          rw [ih (h.enter hstep) hrest hnext, hnote]
          rfl
      | leave =>
          rw [ih (h.leave hstep) hrest hnext, hnote]
          rfl
      | mention path name =>
          rw [ih (h.mention hstep) hrest hnext, hnote]
          simp only [note, contexts, List.map_cons, Mention.referent, h.referent_eq name,
            List.append_assoc, List.singleton_append]

end Walk.Tracks

/-! ## Where a mention stands -/

theorem contexts_append {first : List Event} (h : Nested first) :
    ∀ (stack : Stack) (rest : List Event),
      contexts stack (first ++ rest) = contexts stack first ++ contexts stack rest := by
  induction h with
  | nil => intro stack rest; rfl
  | mention path name => intro stack rest; rfl
  | @scope site names body _ _ ih =>
      intro stack rest
      rw [List.append_assoc, List.cons_append, List.singleton_append, List.cons_append]
      simp only [contexts]
      rw [ih, ih]
      simp only [contexts, List.tail_cons, List.append_nil]
  | @append first' rest' _ _ ih₁ ih₂ =>
      intro stack rest
      rw [List.append_assoc, ih₁, ih₁, ih₂, List.append_assoc]

theorem contexts_scope {site : Path} {names : List String} {body : List Event} (h : Nested body)
    (stack : Stack) :
    contexts stack (.enter site names :: body ++ [.leave]) =
      contexts ((site, names) :: stack) body := by
  rw [List.cons_append]
  simp only [contexts]
  rw [contexts_append h]
  simp only [contexts, List.append_nil]

/-- Nested events only add scopes inside those open around them, each entered before. -/
theorem Nested.stack_scopes {events : List Event} (h : Nested events) :
    ∀ {stack : Stack} {m : Mention}, m ∈ contexts stack events →
      ∃ inner, m.stack = inner ++ stack ∧
        (inner.map Prod.fst).reverse.Sublist (enteredScopes events) ∧
        ∀ scope ∈ inner, .enter scope.1 scope.2 ∈ events := by
  induction h with
  | nil => intro stack m hm; exact absurd hm List.not_mem_nil
  | mention path name =>
      intro stack m hm
      rw [List.mem_singleton.1 hm]
      exact ⟨[], rfl, List.nil_sublist _, fun scope hscope => absurd hscope List.not_mem_nil⟩
  | @scope site names body hbody _ ih =>
      intro stack m hm
      rw [contexts_scope hbody] at hm
      obtain ⟨inner, hinner, hsub, hentered⟩ := ih hm
      refine ⟨inner ++ [(site, names)], by rw [hinner, List.append_assoc]; rfl, ?_, ?_⟩
      · have hscopes : enteredScopes (.enter site names :: body ++ [.leave]) =
            site :: enteredScopes body := by
          simp [enteredScopes, Event.scope?]
        rw [hscopes, List.map_append, List.reverse_append]
        exact hsub.cons_cons site
      · intro scope hscope
        rcases List.mem_append.1 hscope with hscope | hscope
        · exact List.mem_cons_of_mem _ (List.mem_append_left _ (hentered scope hscope))
        · rw [List.mem_singleton.1 hscope]
          exact List.mem_cons_self
  | @append first rest hfirst _ ih₁ ih₂ =>
      intro stack m hm
      have hscopes : enteredScopes (first ++ rest) = enteredScopes first ++ enteredScopes rest :=
        List.filterMap_append
      rw [contexts_append hfirst] at hm
      rw [hscopes]
      rcases List.mem_append.1 hm with hm | hm
      · obtain ⟨inner, hinner, hsub, hentered⟩ := ih₁ hm
        exact ⟨inner, hinner, hsub.trans (List.sublist_append_left ..),
          fun scope hscope => List.mem_append_left _ (hentered scope hscope)⟩
      · obtain ⟨inner, hinner, hsub, hentered⟩ := ih₂ hm
        exact ⟨inner, hinner, hsub.trans (List.sublist_append_right ..),
          fun scope hscope => List.mem_append_right _ (hentered scope hscope)⟩

theorem Nested.stack_suffix {events : List Event} (h : Nested events) {stack : Stack}
    {m : Mention} (hm : m ∈ contexts stack events) : ∃ inner, m.stack = inner ++ stack := by
  obtain ⟨inner, hinner, -⟩ := h.stack_scopes hm
  exact ⟨inner, hinner⟩

theorem mem_contexts_of_mem_mentionNames {events : List Event} {n : String} (stack : Stack)
    (h : n ∈ mentionNames events) : ∃ m ∈ contexts stack events, m.name = n := by
  rw [← contexts_names stack] at h
  exact List.mem_map.1 h

/-- A name that is declared by a scope open around some mention is itself mentioned in
that scope. -/
theorem Nested.mentioned_inside {events : List Event} (h : Nested events) :
    ∀ {stack : Stack} {m : Mention} {inner outer : Stack} {scope : Path × List String} {n : String},
      m ∈ contexts stack events → m.stack = inner ++ scope :: (outer ++ stack) → n ∈ scope.2 →
      ∃ d ∈ contexts stack events, d.name = n ∧
        ∃ inner', d.stack = inner' ++ scope :: (outer ++ stack) := by
  induction h with
  | nil => intro stack m _ _ _ _ hm; exact absurd hm List.not_mem_nil
  | mention path name =>
      intro stack m inner outer scope n hm hstack
      have hlength := congrArg List.length (List.mem_singleton.1 hm ▸ hstack)
      simp only [List.length_append, List.length_cons] at hlength
      omega
  | @scope site names body hbody hnames ih =>
      intro stack m inner outer scope n hm hstack hn
      rw [contexts_scope hbody] at hm ⊢
      -- the scope is the one entered here, or one inside it
      rcases List.eq_nil_or_concat outer with rfl | ⟨outer', last, rfl⟩
      · obtain ⟨inner₀, hinner₀⟩ := hbody.stack_suffix hm
        have hscope : scope = (site, names) := by
          rw [hstack, List.nil_append] at hinner₀
          exact (List.cons.inj (List.append_inj' hinner₀ (by simp)).2).1
        rw [hscope] at hn ⊢
        obtain ⟨d, hd, hdn⟩ := mem_contexts_of_mem_mentionNames ((site, names) :: stack) (hnames n hn)
        obtain ⟨inner', hinner'⟩ := hbody.stack_suffix hd
        exact ⟨d, hd, hdn, inner', by rw [hinner', List.nil_append]⟩
      · obtain ⟨inner₀, hinner₀⟩ := hbody.stack_suffix hm
        have hlast : last = (site, names) := by
          have heq : (inner ++ scope :: outer') ++ last :: stack = inner₀ ++ (site, names) :: stack := by
            rw [← hinner₀, hstack]
            simp [List.append_assoc]
          exact (List.cons.inj (List.append_inj' heq (by simp)).2).1
        have hshift : (outer' ++ [last]) ++ stack = outer' ++ ((site, names) :: stack) := by
          rw [hlast, List.append_assoc]
          rfl
        rw [List.concat_eq_append, hshift] at hstack ⊢
        exact ih hm hstack hn
  | append hfirst _ ih₁ ih₂ =>
      intro stack m inner outer scope n hm hstack hn
      rw [contexts_append hfirst] at hm ⊢
      rcases List.mem_append.1 hm with hm | hm
      · obtain ⟨d, hd, hrest⟩ := ih₁ hm hstack hn
        exact ⟨d, List.mem_append_left _ hd, hrest⟩
      · obtain ⟨d, hd, hrest⟩ := ih₂ hm hstack hn
        exact ⟨d, List.mem_append_right _ hd, hrest⟩

end NameRecovery.Scope
