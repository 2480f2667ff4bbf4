import NameRecovery.Proofs.Scope.Enclosing
import NameRecovery.Proofs.Scope.Rerun
import NameRecovery.Proofs.Scope.WorkStack
import NameRecovery.Proofs.Tree.Edited

/-!
# Walking through a tree while it is rewritten

The resolver follows the events of a program, which are read off the tree before anything is
rewritten.  A tour reads the tree while it rewrites it.  Both do the same, because a tour has not
yet rewritten anything at or below a node that it comes to: all edits made so far lie apart from
it, and at most those outside its scope have been made when its scope is entered.

* `Walk.tour` — the tour that has come as far as a walk that follows events, and its steps;
* `Follows` — a tour does at some places what following some events does;
* `Clear`, `ClearInside` — the edits made so far lie apart from what lies ahead.
-/

namespace NameRecovery.Scope

open NameRecovery.Tree

/-! ## Resolvers without their edits -/

namespace Resolver

/-- The resolver without the edits it has noted. -/
def unedited (r : Resolver) : Resolver :=
  { r with edits := [] }

theorem unedited_eq_self {r : Resolver} (h : r.edits = []) : r.unedited = r := by
  rw [unedited, ← h]

theorem declareIn_unedited (r : Resolver) (frame : Frame) (name : String) :
    r.unedited.declareIn frame name =
      ((r.declareIn frame name).1.unedited, (r.declareIn frame name).2) := by
  rw [declareIn, declareIn]
  split
  · rfl
  · cases hdry : r.dryRun <;> cases hlast : r.counters.find? name <;>
      simp [unedited, hdry, hlast]

theorem declareAll_unedited (names : List String) : ∀ (r : Resolver) (frame : Frame),
    r.unedited.declareAll frame names =
      ((r.declareAll frame names).1.unedited, (r.declareAll frame names).2) := by
  induction names with
  | nil => intro r frame; rfl
  | cons name rest ih =>
      intro r frame
      rw [declareAll, declareAll, declareIn_unedited]
      exact ih _ _

theorem mention_unedited (r : Resolver) (name : String) :
    r.unedited.mention name = ((r.mention name).1.unedited, (r.mention name).2) := by
  have hlookup : r.unedited.lookup name = r.lookup name := rfl
  rw [mention, mention, hlookup]
  cases r.lookup name with
  | none => rfl
  | some resolved =>
      have hdry : r.unedited.dryRun = r.dryRun := rfl
      by_cases hnew : resolved ≠ name ∧ ¬ r.dryRun
      · simp only [hdry, if_pos hnew]
        rfl
      · simp only [hdry, if_neg hnew]

end Resolver

/-! ## Walks and tours -/

/-- The tour that has come as far as a walk that follows events. -/
def Walk.tour (w : Walk) (t : Tree) (met : List Met) : Tour :=
  { tree := t.edit w.resolver.edits
    resolver := w.resolver.unedited
    sites := w.sites
    met }

/-- An identifier was met as a mention stands in its scopes: the open frames have just the names
that the scopes declare. -/
structure Met.Matches (m : Met) (c : Mention) : Prop where
  /-- The path is that of the mention. -/
  path : m.path = c.path
  /-- So is the name. -/
  name : m.name = c.name
  /-- The open frames belong to the nodes of its scopes. -/
  sites : m.sites = c.stack.map Prod.fst
  /-- Each of them has the names that its scope declares. -/
  frames : List.Forall₂ (fun frame scope => ∀ n, frame.has n = scope.2.contains n) m.frames c.stack

namespace Met.Matches

variable {met : List Met} {mentions : List Mention}

theorem mentions_eq (h : List.Forall₂ Matches met mentions) :
    (met.map fun m => (m.path, m.name)) = mentions.map fun c => (c.path, c.name) := by
  induction h with
  | nil => rfl
  | cons hmatch _ ih => rw [List.map_cons, List.map_cons, ih, hmatch.path, hmatch.name]

theorem of_mem (h : List.Forall₂ Matches met mentions) {m : Met} (hm : m ∈ met) :
    ∃ c ∈ mentions, m.Matches c := by
  induction h with
  | nil => exact absurd hm List.not_mem_nil
  | cons hmatch _ ih =>
      rcases List.mem_cons.1 hm with rfl | hm
      · exact ⟨_, List.mem_cons_self, hmatch⟩
      · obtain ⟨c, hc, hmatch'⟩ := ih hm
        exact ⟨c, List.mem_cons_of_mem _ hc, hmatch'⟩

end Met.Matches

/-- What an identifier is met as is what its mention says. -/
theorem Walk.Tracks.matches {w : Walk} {stack : Stack} (h : w.Tracks stack) (path : Path)
    (name : String) : Met.Matches ⟨path, name, w.sites, w.resolver.frames⟩ ⟨path, name, stack⟩ :=
  ⟨rfl, rfl, h.sites, h.frames⟩

/-- Visiting the places does what following the events does, and meets their mentions. -/
def Follows (t : Tree) (w w' : Walk) (places : List Place) (stack : Stack)
    (events : List Event) : Prop :=
  ∀ met, ∃ more, Visits (w.tour t met) places (w'.tour t (met ++ more)) ∧
    List.Forall₂ Met.Matches more (contexts stack events)

namespace Follows

variable {t : Tree} {w w₁ w' : Walk} {stack : Stack}

theorem nil : Follows t w w [] stack [] :=
  fun met => ⟨[], by rw [List.append_nil]; exact .done _, .nil⟩

theorem append {first rest : List Place} {events events' : List Event} (hnested : Nested events)
    (hfirst : Follows t w w₁ first stack events) (hrest : Follows t w₁ w' rest stack events') :
    Follows t w w' (first ++ rest) stack (events ++ events') := by
  intro met
  obtain ⟨more, hvisits, hmore⟩ := hfirst met
  obtain ⟨more', hvisits', hmore'⟩ := hrest (met ++ more)
  rw [List.append_assoc] at hvisits'
  refine ⟨more ++ more', hvisits.append hvisits', ?_⟩
  rw [contexts_append hnested]
  exact List.rel_append hmore hmore'

end Follows

namespace Walk

variable {t : Tree} {w w' : Walk} {met : List Met}

theorem follow_append_ok {first rest : List Event} (h : w.follow (first ++ rest) = .ok w') :
    ∃ mid, w.follow first = .ok mid ∧ mid.follow rest = .ok w' := by
  rw [follow_append] at h
  cases hfirst : w.follow first with
  | error trouble => rw [hfirst] at h; cases h
  | ok mid => rw [hfirst] at h; exact ⟨mid, rfl, h⟩

theorem edits_follow {events : List Event} (h : w.follow events = .ok w') :
    ∀ e ∈ w'.resolver.edits, e ∈ w.resolver.edits ∨ e.1 ∈ mentionPaths events := by
  have hresolver := Walk.follow_resolver w events
  rw [h] at hresolver
  exact Resolver.edits_follow hresolver.symm

/-- Nested events leave the scopes open that were open. -/
theorem Tracks.follow_nested {stack : Stack} (h : w.Tracks stack) {events : List Event}
    (hnested : Nested events) (hrun : w.follow events = .ok w') : w'.Tracks stack := by
  obtain ⟨last, hlast, hframes, hsites⟩ := hnested.follow w
  obtain rfl := Except.ok.inj (hlast.symm.trans hrun)
  exact ⟨hsites.trans h.sites, hframes ▸ h.frames⟩

section Steps

variable {path : Path} {u : Tree}

/-- Resolving an identifier is following its mention. -/
theorem rewrite_tour {name : String} (hat : (t.edit w.resolver.edits).at? path = some u)
    (hname : (u.get? "name").bind Tree.text? = some name)
    (hstep : w.step (.mention path name) = .ok w') :
    (w.tour t met).rewrite path =
      some (w'.tour t (met ++ [⟨path, name, w.sites, w.resolver.frames⟩])) := by
  have hmention : (w.tour t met).resolver.mention name =
      ((w.resolver.mention name).1.unedited, (w.resolver.mention name).2) :=
    w.resolver.mention_unedited name
  have hedits := w.resolver.mention_edits name
  rw [Tour.rewrite_eq hat hname, hmention]
  cases hnew : w.resolver.mention name with
  | mk r new =>
      rw [hnew] at hedits
      cases new with
      | none =>
          have hnext : w.resolver.step (.mention path name) = .ok r := by
            rw [Resolver.step, hnew]
          obtain rfl := Except.ok.inj (hstep.symm.trans (step_of_resolver hnext))
          simp only [tour, note, show r.edits = w.resolver.edits from hedits]
          rfl
      | some new =>
          have hnext : w.resolver.step (.mention path name) =
              .ok { r with edits := (path, new) :: r.edits } := by
            rw [Resolver.step, hnew]
          obtain rfl := Except.ok.inj (hstep.symm.trans (step_of_resolver hnext))
          have htree : (t.edit w.resolver.edits).edit [(path, new)] =
              t.edit ((path, new) :: r.edits) := by
            rw [show r.edits = w.resolver.edits from hedits]
            exact edit_edit ..
          simp only [tour, note, Option.elim, htree]
          rfl

theorem enterScope_tour {names : List String} (hat : (t.edit w.resolver.edits).at? path = some u)
    (hkind : u.isKind "Program" = false) (hnames : scopeNames? u = some (.ok names))
    (hstep : w.step (.enter path names) = .ok w') :
    (w.tour t met).enterScope path = some (w'.tour t met, true) := by
  obtain rfl := Except.ok.inj (hstep.symm.trans
    (step_of_resolver (w.resolver.step_enter path names)))
  have hdeclare : (w.tour t met).resolver.declareAll [] names =
      ((w.resolver.declareAll [] names).1.unedited, (w.resolver.declareAll [] names).2) :=
    Resolver.declareAll_unedited names w.resolver []
  obtain ⟨counters, taken, renames, hsame⟩ := w.resolver.declareAll_frame names []
  rw [Tour.enterScope_some hat hkind hnames, hdeclare]
  simp only [tour, note, Resolver.unedited, hsame]

theorem leaveScope_tour (hstep : w.step .leave = .ok w') :
    (w.tour t met).leaveScope = some (w'.tour t met) := by
  obtain ⟨hres, hnote⟩ := step_ok hstep
  obtain ⟨frame, frames, hframes, hnext⟩ := Resolver.step_leave hres
  have hopen : (w.tour t met).resolver.frames = frame :: frames := hframes
  rw [Tour.leaveScope_eq hopen, hnote, hnext]
  rfl

end Steps

/-- Entering a scope makes no edits. -/
theorem edits_enter {path : Path} {names : List String}
    (hstep : w.step (.enter path names) = .ok w') : w'.resolver.edits = w.resolver.edits := by
  obtain ⟨counters, taken, renames, hsame⟩ := w.resolver.declareAll_frame names []
  obtain rfl := Except.ok.inj (hstep.symm.trans
    (step_of_resolver (w.resolver.step_enter path names)))
  simp only [note, hsame]

end Walk

/-! ## Edits lie apart from what lies ahead -/

theorem mentionPaths_below {u : Tree} (h : u.isFormed = true) (hnode : u.isNode = true)
    (hprogram : u.kind? ≠ some "Program") (spot : Spot) :
    ∀ p ∈ mentionPaths (eventsAt spot u), spot.path <+: p := by
  intro p hp
  rw [mentionPaths_eq, mentions_eventsAt h hnode hprogram] at hp
  exact visitsAt_below ((occurrencesAt_paths_sublist spot u).subset hp)

/-- The edits lie apart from the node at a path. -/
def Clear (w : Walk) (path : Path) : Prop :=
  ∀ e ∈ w.resolver.edits, Apart path e.1

theorem Clear.below {w : Walk} {path : Path} (h : Clear w path) (step : Step) :
    Clear w (path ++ [step]) :=
  fun e he => (h e he).append [step]

/-- What was done below one branch of a node lies apart from the others. -/
theorem Clear.follow_branch {w w' : Walk} {parent u : Tree} {here : Path} {step step' : Step}
    (hclear : Clear w (here ++ [step'])) (h : u.isFormed = true) (hnode : u.isNode = true)
    (hprogram : u.kind? ≠ some "Program") (hne : step' ≠ step)
    (hrun : w.follow (eventsAt (parent.spotAt here step) u) = .ok w') :
    Clear w' (here ++ [step']) := by
  intro e he
  rcases Walk.edits_follow hrun e he with hold | hnew
  · exact hclear e hold
  · exact .of_steps hne (mentionPaths_below h hnode hprogram _ _ hnew)

/-- A walk decides as the tree says whether an identifier that it comes to names a binding. -/
theorem Clear.isBinding_tour {t parent : Tree} {w : Walk} {here : Path} {step : Step}
    (h : Clear w (here ++ [step])) (hat : t.at? here = some parent) (met : List Met) :
    (w.tour t met).isBinding (.below here step) =
      isBindingPlace (some parent) (some step.field) := by
  have hplace := isBindingPlace_edit_before h (List.prefix_append here [step]) t (some step.field)
  rw [hat] at hplace
  exact hplace

/-! ## Edits outside a scope -/

section Node

variable {t : Tree} {kind : String} {fields : List (String × Tree)} {here : Path}

/-- The edits lie apart from the node at a path, or below its fields outside its scope. -/
def ClearInside (w : Walk) (here : Path) (kind : String) : Prop :=
  ∀ e ∈ w.resolver.edits,
    Apart here e.1 ∨ ∃ step : Step, step.field ∈ outerKeys kind ∧ here ++ [step] <+: e.1

theorem Clear.follow_outer {w w₁ : Walk} (hclear : Clear w here)
    (h : (Tree.node kind fields).isFormed = true)
    (hrun : w.follow (branchEvents (.node kind fields) here (outerBranches kind fields)) = .ok w₁) :
    ClearInside w₁ here kind := by
  intro e he
  rcases Walk.edits_follow hrun e he with hold | hnew
  · exact .inl (hclear e hold)
  · right
    rw [mentionPaths, branchEvents, List.filterMap_flatMap] at hnew
    obtain ⟨b, hb, hpath⟩ := List.mem_flatMap.1 hnew
    have hmem := mem_of_outer (isFormed_node.1 h).1 hb
    obtain ⟨field, hfield, hplaced⟩ := List.mem_flatMap.1 hb
    have houter := (List.mem_filter.1 hfield).2
    rw [← placed_field hplaced, List.contains_iff_mem] at houter
    refine ⟨b.1, houter, ?_⟩
    cases hnode : b.2.isNode with
    | true =>
        exact mentionPaths_below (isFormed_branch h hmem) hnode
          (kind_ne_program (isFormed_node.1 h).1 hmem) _ _ hpath
    | false =>
        rw [eventsAt_of_not_node h hmem hnode] at hpath
        exact absurd hpath List.not_mem_nil

namespace ClearInside

variable {w : Walk}

theorem inner (h : ClearInside w here kind) {b : Step × Tree} (hb : b ∈ innerBranches kind fields) :
    Clear w (here ++ [b.1]) := by
  intro e he
  rcases h e he with hapart | ⟨step, hstep, hway⟩
  · exact hapart.append _
  · refine .of_steps ?_ hway
    rintro rfl
    exact not_outer_of_inner hb hstep

/-- The node is as it was but for what lies outside its scope. -/
theorem live (h : ClearInside w here kind) {u : Tree} (hat : t.at? here = some u) :
    ∃ new : Path → Option String, (t.edit w.resolver.edits).at? here = some (u.editWith new) ∧
      new [] = none ∧ ∀ step rest, step.field ∉ outerKeys kind → new (step :: rest) = none := by
  have hlookup : ∀ q, (∀ e ∈ w.resolver.edits, e.1 ≠ q) → w.resolver.edits.lookup q = none := by
    intro q hq
    refine List.lookup_eq_none_iff.2 fun e he => ?_
    simpa using Ne.symm (hq e he)
  have hbefore : ∀ before, before <+: here → ∀ e ∈ w.resolver.edits, e.1 ≠ before := by
    rintro before hway e he rfl
    rcases h e he with hapart | ⟨step, -, hbelow⟩
    · exact hapart.2 hway
    · have hlength := (hbelow.trans hway).length_le
      simp only [List.length_append, List.length_singleton] at hlength
      omega
  refine ⟨fun rest => w.resolver.edits.lookup (here ++ rest), ?_, ?_, fun step rest hstep => ?_⟩
  · rw [edit_eq_editWith, at?_editWith fun before next hway => hlookup before
      (hbefore before ((List.prefix_append before [next]).trans hway)), hat, Option.map_some]
  · simpa using hlookup here (hbefore here (List.prefix_refl here))
  · refine hlookup _ fun e he heq => ?_
    have hbelow : here ++ [step] <+: e.1 := by
      rw [heq]
      exact ⟨rest, by rw [List.append_assoc]; rfl⟩
    rcases h e he with hapart | ⟨step', hstep', hbelow'⟩
    · exact hapart.1 ((List.prefix_append here [step]).trans hbelow)
    · exact hstep (step_unique hbelow hbelow' ▸ hstep')

end ClearInside

/-- Edits outside the scope of a node change nothing in what it declares. -/
theorem scopeNames?_editWith {new : Path → Option String} (hnew : new [] = none)
    (houter : ∀ step rest, step.field ∉ outerKeys kind → new (step :: rest) = none) :
    scopeNames? ((Tree.node kind fields).editWith new) = scopeNames? (.node kind fields) := by
  have hget : ∀ key, key ≠ "name" → key ∉ outerKeys kind →
      ((Tree.node kind fields).editWith new).get? key = (Tree.node kind fields).get? key :=
    fun key hname hkey =>
      get?_editWith_apart hname (fun index path => houter ⟨key, index⟩ path hkey) _
  by_cases hswitch : kind = "SwitchStatement"
  · subst hswitch
    have hcases := hget "cases" (by decide) (by decide)
    rw [scopeNames?, kind?_editWith]
    change some (do caseNames (← (Tree.get "cases" _).items)) = _
    rw [Tree.get, hcases]
    rfl
  by_cases hfunction : kind = "FunctionDeclaration"
  · subst hfunction
    have hparams := hget "params" (by decide) (by decide)
    have hbody := hget "body" (by decide) (by decide)
    have hneed : ((Tree.node "FunctionDeclaration" fields).editWith new).need "body" =
        (Tree.node "FunctionDeclaration" fields).need "body" := by
      rw [editWith_node] at hbody ⊢
      rw [need, hbody]
      rfl
    rw [scopeNames?, kind?_editWith]
    change some (functionNames _) = some (functionNames _)
    rw [functionNames_eq, functionNames_eq, selfNames, selfNames, paramNames, paramNames, bodyNames,
      bodyNames, isKind_editWith, hneed, Tree.get, hparams]
    rfl
  · have hnone : new = fun _ => none := by
      funext path
      cases path with
      | nil => exact hnew
      | cons step rest => exact houter step rest (by simp [outerKeys, hswitch, hfunction])
    rw [hnone, editWith_none]

end Node

end NameRecovery.Scope
