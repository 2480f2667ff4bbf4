import NameRecovery.Grammar.Program
import NameRecovery.Proofs.Scope.Rerun

/-!
# Fresh names in every state

A resolver can be used step by step: scopes are opened and closed, names are declared in any
frame, looked up and mentioned, and whole runs go through its tree in between.  Whatever is
done with it, in whatever order, all that ever happens to its names is that some are declared
(`Resolver.Declares`).  Each declaration numbers a name anew or leaves the numbers as they
are, and from that follows what holds of the names given in every state.

* `Action`, `Session.after` — what can be done with a resolver, and the state it leads to;
* `Resolver.Declares` — the trace that any action leaves in the numbers;
* `Numbering` — renames that each use the least number possible when they are made;
* `Resolver.Numbered` — the invariant, kept by every declaration (`Numbered.declareIn`) and so
  by every action;
* `Session.after_extends` — an open frame keeps the bindings it has;
* `names_fresh_in_every_state` — what holds in every state of every session.
-/

namespace NameRecovery.Scope

open NameRecovery.Tree

/-! ## Sessions -/

/-- What can be done with a resolver. -/
inductive Action where
  /-- Open a scope. -/
  | push
  /-- Close the innermost scope. -/
  | pop
  /-- Declare a name in the open frame that the number means. -/
  | declare (index : Int) (name : String)
  /-- Declare a name in a frame that is not open, such as one that was closed. -/
  | declareOutside (frame : Frame) (name : String)
  /-- Look a name up. -/
  | lookup (name : String)
  /-- Give an identifier that does not belong to the tree its new name. -/
  | rewrite (name : String)
  /-- Give the occurrence at a path of the tree its new name. -/
  | rewriteAt (path : Path)
  /-- Run through the tree. -/
  | run

/-- A resolver in use, and its tree as it is by now. -/
structure Session where
  /-- The resolver. -/
  resolver : Resolver
  /-- The tree. -/
  tree : Tree

namespace Session

/-- Do something with the resolver. -/
def perform (s : Session) : Action → Except Trouble Session
  | .push => .ok { s with resolver := s.resolver.push }
  | .pop => do return { s with resolver := (← s.resolver.pop).2 }
  | .declare index name => do return { s with resolver := ← s.resolver.declareAt index [name] }
  | .declareOutside frame name => .ok { s with resolver := (s.resolver.declareIn frame name).1 }
  | .lookup _ => .ok s
  | .rewrite name => .ok { s with resolver := (s.resolver.mention name).1 }
  | .rewriteAt path =>
    match s.tree.occurrences.lookup path with
    | none => .ok s
    | some name =>
      match s.resolver.mention name with
      | (resolver, some new) => .ok { resolver, tree := s.tree.edit [(path, new)] }
      | (resolver, none) => .ok { s with resolver }
  | .run => do
    let (resolver, tree) ← s.resolver.run s.tree
    return { resolver, tree }

/-- The state after an action; one that fails changes nothing. -/
def next (s : Session) (action : Action) : Session :=
  match s.perform action with
  | .ok s' => s'
  | .error _ => s

/-- The state after actions, one after the other. -/
def after (s : Session) (actions : List Action) : Session :=
  actions.foldl next s

/-- Is there no frame for the action? -/
def LacksFrame (s : Session) : Action → Prop
  | .pop | .run => s.resolver.frames = []
  | .declare index _ => s.resolver.frameIndex? index = none
  | .push | .declareOutside _ _ | .lookup _ | .rewrite _ | .rewriteAt _ => False

end Session

/-! ## The trace of an action -/

namespace Resolver

/-- The last number put behind a name; zero before the first. -/
def lastNumber (r : Resolver) (name : String) : Nat :=
  (r.counters.find? name).getD 0

/-- The second resolver has come from the first one by declaring names, in whatever frames. -/
inductive Declares : Resolver → Resolver → Prop where
  | none {r r' : Resolver} : r'.dryRun = r.dryRun → r'.counters = r.counters →
      r'.taken = r.taken → r'.renames = r.renames → Declares r r'
  | one (r : Resolver) (frame : Frame) (name : String) : Declares r (r.declareIn frame name).1
  | trans {r r' r'' : Resolver} : Declares r r' → Declares r' r'' → Declares r r''

namespace Declares

variable {r r' : Resolver}

theorem refl (r : Resolver) : Declares r r :=
  .none rfl rfl rfl rfl

theorem declareAll (names : List String) : ∀ (r : Resolver) (frame : Frame),
    Declares r (r.declareAll frame names).1 := by
  induction names with
  | nil => intro r frame; exact refl r
  | cons name rest ih =>
      intro r frame
      rw [Resolver.declareAll]
      exact .trans (.one r frame name) (ih _ _)

theorem declareAt {index : Int} {names : List String} (h : r.declareAt index names = .ok r') :
    Declares r r' := by
  rw [Resolver.declareAt] at h
  split at h
  · cases h
  · rw [← Except.ok.inj h]
    exact .trans (declareAll names r _) (.none rfl rfl rfl rfl)

theorem mention (r : Resolver) (name : String) : Declares r (r.mention name).1 := by
  rw [Resolver.mention]
  split
  · exact .none rfl rfl rfl rfl
  · split
    · exact .none rfl rfl rfl rfl
    · exact refl r

theorem step {event : Event} (h : r.step event = .ok r') : Declares r r' := by
  cases event with
  | declare names => exact declareAt h
  | enter scope names =>
      rw [step_enter] at h
      rw [← Except.ok.inj h]
      exact .trans (declareAll names r []) (.none rfl rfl rfl rfl)
  | leave =>
      obtain ⟨frame, frames, -, rfl⟩ := step_leave h
      exact .none rfl rfl rfl rfl
  | mention path name =>
      have hmention := mention r name
      rw [Resolver.step] at h
      split at h <;> rename_i heq <;> rw [heq] at hmention <;> rw [← Except.ok.inj h]
      · exact .trans hmention (.none rfl rfl rfl rfl)
      · exact hmention
  | broken fault => cases h

/-- A whole run declares names and does no more. -/
theorem follow {events : List Event} (h : r.follow events = .ok r') : Declares r r' := by
  induction events generalizing r with
  | nil => rw [← Except.ok.inj h]; exact refl r
  | cons event rest ih =>
      rw [Resolver.follow] at h
      cases hstep : r.step event with
      | error trouble => rw [hstep] at h; cases h
      | ok next =>
          rw [hstep] at h
          exact .trans (step hstep) (ih h)

end Declares

/-! ## What declaring a name does to the numbers -/

/-- A name that has been declared before, but not in this frame, gets the number that the
search finds, started above the last one. -/
theorem declareIn_counted {r : Resolver} {frame : Frame} {name : String} {last : Nat}
    (hreal : r.dryRun = false) (hframe : frame.has name = false)
    (hlast : r.counters.find? name = some last) :
    ∃ count, Search r.taken name (last + 1) count ∧
      r.declareIn frame name =
        ({ r with
            counters := r.counters.put name count
            taken := numbered name count :: r.taken
            renames := r.renames ++ [(name, numbered name count)] },
          frame.put name (numbered name count)) := by
  refine ⟨_, search_freshNumber r.taken name (last + 1), ?_⟩
  rw [declareIn, hframe, hreal]
  simp only [Bool.false_eq_true, if_false, hlast]

/-- The last number of a name that is declared for the first time is zero, as before. -/
theorem declareIn_uncounted {r : Resolver} {frame : Frame} {name : String}
    (hreal : r.dryRun = false) (hframe : frame.has name = false)
    (hlast : r.counters.find? name = none) :
    r.declareIn frame name =
      ({ r with counters := r.counters.put name 0 }, frame.put name name) := by
  have hhas : r.counters.has name = false := by rw [Table.has, hlast]; rfl
  rw [declareIn, hframe, hreal]
  simp only [Bool.false_eq_true, if_false, hlast, hhas]

theorem declareIn_again (r : Resolver) {frame : Frame} {name : String}
    (hframe : frame.has name = true) : r.declareIn frame name = (r, frame) := by
  rw [declareIn, if_pos hframe]

end Resolver

/-! ## Numbers are used once -/

/-- Renames that were made one after the other, when only the known names were taken: each puts
a number behind a name, the least one above the last number put behind that name that makes
neither a known name nor one given before.  The last numbers are told along with them. -/
inductive Numbering (known : List String) : List (String × String) → (String → Nat) → Prop where
  | start : Numbering known [] fun _ => 0
  | give {renames : List (String × String)} {last : String → Nat} {name : String} {count : Nat} :
      Numbering known renames last →
      IsLeast {k | last name < k ∧ numbered name k ∉ known ∧
        numbered name k ∉ renames.map Prod.snd} count →
      Numbering known (renames ++ [(name, numbered name count)])
        fun n => if n = name then count else last n

namespace Numbering

variable {known : List String} {renames : List (String × String)} {last : String → Nat}

/-- No name is given twice: a number that is not taken makes a name that is not. -/
theorem nodup (h : Numbering known renames last) : (renames.map Prod.snd).Nodup := by
  induction h with
  | start => exact List.nodup_nil
  | give _ hleast ih =>
      rw [List.map_append, List.map_singleton, List.nodup_append]
      refine ⟨ih, List.nodup_singleton _, fun m hm m' hm' heq => ?_⟩
      rw [heq, List.mem_singleton.1 hm'] at hm
      exact hleast.1.2.2 hm

/-- No known name is given. -/
theorem not_known (h : Numbering known renames last) : ∀ m ∈ renames.map Prod.snd, m ∉ known := by
  induction h with
  | start => intro m hm; exact absurd hm List.not_mem_nil
  | give _ hleast ih =>
      intro m hm
      rw [List.map_append, List.mem_append] at hm
      rcases hm with hm | hm
      · exact ih m hm
      · rw [List.mem_singleton.1 hm]
        exact hleast.1.2.1

end Numbering

/-- The names a resolver has given so far are numbered one after the other, and the counters
and the taken names tell how far it has come. -/
structure Resolver.Numbered (known : List String) (r : Resolver) : Prop where
  /-- Names are given in a real run only. -/
  real : r.dryRun = false
  /-- Taken are the known names and those given. -/
  taken_iff : ∀ m, m ∈ r.taken ↔ m ∈ known ∨ m ∈ r.renames.map Prod.snd
  /-- The names given are numbered, and the counters hold the last numbers. -/
  numbering : Numbering known r.renames r.lastNumber

namespace Resolver.Numbered

variable {known : List String} {r r' : Resolver}

theorem start (known reserved : List String) :
    (Resolver.start known reserved false).Numbered known where
  real := rfl
  taken_iff m := ⟨.inl, fun h => h.resolve_right List.not_mem_nil⟩
  numbering := by
    have hzero : (Resolver.start known reserved false).lastNumber = fun _ => 0 := by
      funext name
      rw [lastNumber, Resolver.start]
      cases hfind : (Table.ofList (reserved.map fun name => (name, 0))).find? name with
      | none => rfl
      | some last =>
          obtain ⟨n, -, heq⟩ := List.mem_map.1 (Table.mem_ofList (Table.mem_of_find? hfind))
          exact (Prod.mk.inj heq).2.symm
    rw [hzero]
    exact .start

/-- **The step**: declaring a name, in whatever frame, uses the least number left for it. -/
theorem declareIn (h : r.Numbered known) (frame : Frame) (name : String) :
    (r.declareIn frame name).1.Numbered known := by
  cases hframe : frame.has name with
  | true =>
      rw [r.declareIn_again hframe]
      exact h
  | false =>
      cases hlast : r.counters.find? name with
      | none =>
          rw [declareIn_uncounted h.real hframe hlast]
          refine ⟨h.real, h.taken_iff, ?_⟩
          have hsame : lastNumber { r with counters := r.counters.put name 0 } = r.lastNumber := by
            funext n
            rw [lastNumber, lastNumber, Table.find?_put]
            split
            · rename_i hn
              rw [hn, hlast]
              rfl
            · rfl
          rw [hsame]
          exact h.numbering
      | some last =>
          obtain ⟨count, hsearch, heq⟩ := declareIn_counted h.real hframe hlast
          rw [heq]
          refine ⟨h.real, fun m => ?_, ?_⟩
          · rw [List.mem_cons, h.taken_iff, List.map_append, List.mem_append, List.map_singleton,
              List.mem_singleton]
            tauto
          · have hbefore : r.lastNumber name = last := by rw [lastNumber, hlast]; rfl
            have hafter : lastNumber { r with
                counters := r.counters.put name count
                taken := numbered name count :: r.taken
                renames := r.renames ++ [(name, numbered name count)] } =
                fun n => if n = name then count else r.lastNumber n := by
              funext n
              rw [lastNumber, Table.find?_put]
              split <;> rfl
            rw [hafter]
            refine h.numbering.give ?_
            have hset : {k | r.lastNumber name < k ∧ numbered name k ∉ known ∧
                numbered name k ∉ r.renames.map Prod.snd} =
                {k | last + 1 ≤ k ∧ numbered name k ∉ r.taken} := by
              ext k
              simp only [Set.mem_ofPred_eq, hbefore, h.taken_iff, not_or, Nat.succ_le_iff]
            rw [hset]
            exact hsearch.isLeast

/-- Whatever is declared, the names given stay numbered. -/
theorem declares (h : r.Numbered known) (hdeclares : r.Declares r') : r'.Numbered known := by
  induction hdeclares with
  | @none r r' hreal hcounters htaken hrenames =>
      have hlast : r'.lastNumber = r.lastNumber := by
        funext name
        rw [lastNumber, hcounters, lastNumber]
      refine ⟨hreal.trans h.real, fun m => ?_, ?_⟩
      · rw [htaken, hrenames]
        exact h.taken_iff m
      · rw [hrenames, hlast]
        exact h.numbering
  | one r frame name => exact h.declareIn frame name
  | trans _ _ ih₁ ih₂ => exact ih₂ (ih₁ h)

end Resolver.Numbered

/-! ## Counters only grow -/

/-- Every name that has a counter keeps one that is not smaller. -/
def Resolver.CountersLe (r r' : Resolver) : Prop :=
  ∀ name last, r.counters.find? name = some last →
    ∃ last', r'.counters.find? name = some last' ∧ last ≤ last'

theorem Resolver.countersLe_declareIn (r : Resolver) (frame : Frame) (name : String) :
    r.CountersLe (r.declareIn frame name).1 := by
  intro n last hlast
  rw [declareIn]
  split
  · exact ⟨last, hlast, Nat.le_refl _⟩
  · split
    · split
      · exact ⟨last, hlast, Nat.le_refl _⟩
      · rename_i huncounted
        have hne : n ≠ name := by
          rintro rfl
          exact huncounted (by rw [Table.has, hlast]; rfl)
        exact ⟨last, by rw [Table.find?_put_of_ne _ _ hne]; exact hlast, Nat.le_refl _⟩
    · rename_i before hbefore
      by_cases hn : n = name
      · subst hn
        -- the search starts above the counter
        have hcounter : r.counters.find? n = some before := by
          split at hbefore
          · cases hbefore
          · exact hbefore
        obtain rfl := Option.some.inj (hcounter.symm.trans hlast)
        have hstart := (search_freshNumber r.taken n (before + 1)).isLeast.1.1
        exact ⟨_, Table.find?_put_self _ _ _, by omega⟩
      · exact ⟨last, by rw [Table.find?_put_of_ne _ _ hn]; exact hlast, Nat.le_refl _⟩

/-- **Counters never decrease**, whatever is declared. -/
theorem Resolver.Declares.countersLe {r r' : Resolver} (h : r.Declares r') : r.CountersLe r' := by
  induction h with
  | none _ hcounters _ _ =>
      intro name last hlast
      exact ⟨last, by rw [hcounters]; exact hlast, Nat.le_refl _⟩
  | one r frame name => exact r.countersLe_declareIn frame name
  | trans _ _ ih₁ ih₂ =>
      intro name last hlast
      obtain ⟨last', hlast', hle⟩ := ih₁ name last hlast
      obtain ⟨last'', hlast'', hle'⟩ := ih₂ name last' hlast'
      exact ⟨last'', hlast'', hle.trans hle'⟩

/-! ## Frames keep their bindings -/

/-- The second frame has all bindings of the first one, and gives them the same names. -/
def Extends (frame frame' : Frame) : Prop :=
  ∀ name new, frame.find? name = some new → frame'.find? name = some new

theorem Extends.refl (frame : Frame) : Extends frame frame :=
  fun _ _ h => h

theorem Extends.trans {f g h : Frame} (hfg : Extends f g) (hgh : Extends g h) : Extends f h :=
  fun name new hfind => hgh name new (hfg name new hfind)

theorem extends_put {frame : Frame} {name : String} (h : frame.has name = false) (new : String) :
    Extends frame (frame.put name new) := by
  intro n m hfind
  have hne : n ≠ name := by
    rintro rfl
    rw [Table.has, hfind] at h
    cases h
  rw [Table.find?_put_of_ne _ _ hne]
  exact hfind

namespace Resolver

theorem extends_declareIn (r : Resolver) (frame : Frame) (name : String) :
    Extends frame (r.declareIn frame name).2 := by
  rcases r.declareIn_cases frame name with
    ⟨-, heq⟩ | ⟨hframe, -, counters, -, heq⟩ | ⟨hframe, -, -, count, -, heq⟩
  · rw [heq]
    exact .refl frame
  · rw [heq]
    exact extends_put hframe name
  · rw [heq]
    exact extends_put hframe _

theorem extends_declareAll (names : List String) : ∀ (r : Resolver) (frame : Frame),
    Extends frame (r.declareAll frame names).2 := by
  induction names with
  | nil => intro r frame; exact .refl frame
  | cons name rest ih =>
      intro r frame
      rw [declareAll]
      exact .trans (r.extends_declareIn frame name) (ih _ _)

/-- The open frame with the number, counted from the outermost one. -/
def scope? (r : Resolver) (number : Nat) : Option Frame :=
  r.frames.reverse[number]?

/-- The frames open in both resolvers have kept their bindings. -/
def FramesExtend (r r' : Resolver) : Prop :=
  ∀ number frame frame', r.scope? number = some frame → r'.scope? number = some frame' →
    Extends frame frame'

theorem framesExtend_of_forall₂ {r r' : Resolver} (h : List.Forall₂ Extends r.frames r'.frames) :
    r.FramesExtend r' := by
  intro number frame frame' hframe hframe'
  have hreverse := List.forall₂_reverse_iff.2 h
  rw [scope?, List.getElem?_eq_some_iff] at hframe hframe'
  obtain ⟨hlt, rfl⟩ := hframe
  obtain ⟨hlt', rfl⟩ := hframe'
  exact (List.forall₂_iff_get.1 hreverse).2 number hlt hlt'

theorem framesExtend_of_eq {r r' : Resolver} (h : r'.frames = r.frames) : r.FramesExtend r' :=
  framesExtend_of_forall₂ (h ▸ List.forall₂_same.2 fun frame _ => .refl frame)

/-- A frame that is opened changes no number. -/
theorem framesExtend_of_cons {r r' : Resolver} {frame : Frame} (h : r'.frames = frame :: r.frames) :
    r.FramesExtend r' := by
  intro number f f' hf hf'
  rw [scope?] at hf
  have hlt := (List.getElem?_eq_some_iff.1 hf).1
  rw [scope?, h, List.reverse_cons, List.getElem?_append_left hlt, hf] at hf'
  rw [Option.some.inj hf']
  exact .refl f'

/-- Nor does one that is closed. -/
theorem framesExtend_of_tail {r r' : Resolver} {frame : Frame} (h : r.frames = frame :: r'.frames) :
    r.FramesExtend r' := by
  intro number f f' hf hf'
  rw [scope?] at hf'
  have hlt := (List.getElem?_eq_some_iff.1 hf').1
  rw [scope?, h, List.reverse_cons, List.getElem?_append_left hlt, hf'] at hf
  rw [Option.some.inj hf]
  exact .refl f

theorem framesExtend_declareAt {r r' : Resolver} {index : Int} {names : List String}
    (h : r.declareAt index names = .ok r') : r.FramesExtend r' := by
  rw [declareAt] at h
  split at h
  · cases h
  · rename_i i _
    obtain ⟨counters, taken, renames, hsame⟩ := r.declareAll_frame names (r.frames.getD i [])
    have hframes : r'.frames = r.frames.set i (r.declareAll (r.frames.getD i []) names).2 := by
      rw [← Except.ok.inj h]
      simp only [hsame]
    refine framesExtend_of_forall₂ (List.forall₂_iff_get.2 ?_)
    rw [hframes]
    refine ⟨List.length_set.symm, fun k hk hk' => ?_⟩
    rw [List.get_eq_getElem, List.get_eq_getElem, List.getElem_set]
    split
    · rename_i heq
      subst heq
      have hframe : r.frames.getD i [] = r.frames[i] := by
        rw [List.getD_eq_getElem?_getD, List.getElem?_eq_getElem hk, Option.getD_some]
      rw [hframe]
      exact r.extends_declareAll names _
    · exact .refl _

theorem framesExtend_run {r r' : Resolver} {t t' : Tree} (h : t.isProgram = true)
    (hrun : r.run t = .ok (r', t')) : r.FramesExtend r' := by
  obtain ⟨names, body, hregular⟩ := regular_events h
  rcases List.eq_nil_or_concat' r.frames with hnil | ⟨inner, root, hframes⟩
  · rw [run_program_nil h hnil] at hrun
    cases hrun
  · obtain ⟨last, -, hlast, hend⟩ := run_program h hregular hframes
    obtain ⟨rfl, -⟩ := Prod.mk.inj (Except.ok.inj (hlast.symm.trans hrun))
    refine framesExtend_of_forall₂ ?_
    rw [hframes]
    simp only [hend]
    exact List.rel_append (List.forall₂_same.2 fun frame _ => .refl frame)
      (.cons (r.extends_declareAll names root) .nil)

theorem declareAt_edits {r r' : Resolver} {index : Int} {names : List String}
    (h : r.declareAt index names = .ok r') : r'.edits = r.edits := by
  rw [declareAt] at h
  split at h
  · cases h
  · rename_i i _
    obtain ⟨counters, taken, renames, hsame⟩ := r.declareAll_frame names (r.frames.getD i [])
    rw [← Except.ok.inj h]
    simp only [hsame]

end Resolver

/-! ## Any number of actions -/

namespace Session

/-- A session between two actions: its tree is a program, and no edit is left over. -/
structure Settled (s : Session) : Prop where
  /-- The tree is a program. -/
  program : s.tree.isProgram = true
  /-- All edits have been made. -/
  edits : s.resolver.edits = []

variable {s s' : Session}

/-- The second state has come from the first one by declaring names, with the frames open in
both kept, and it is settled. -/
def Reaches (s s' : Session) : Prop :=
  s.resolver.Declares s'.resolver ∧ s.resolver.FramesExtend s'.resolver ∧ s'.Settled

theorem Settled.reaches_refl (hs : s.Settled) : s.Reaches s :=
  ⟨.refl _, Resolver.framesExtend_of_eq rfl, hs⟩

theorem reaches_pop (hs : s.Settled) (h : s.perform .pop = .ok s') : s.Reaches s' := by
  cases hframes : s.resolver.frames with
  | nil => simp [perform, Resolver.pop, hframes, bind, Except.bind] at h
  | cons frame frames =>
      simp only [perform, Resolver.pop, hframes, bind, Except.bind, pure, Except.pure,
        Except.ok.injEq] at h
      subst h
      exact ⟨.none rfl rfl rfl rfl, Resolver.framesExtend_of_tail hframes, hs.program, hs.edits⟩

theorem reaches_declare (hs : s.Settled) {index : Int} {name : String}
    (h : s.perform (.declare index name) = .ok s') : s.Reaches s' := by
  cases hdeclare : s.resolver.declareAt index [name] with
  | error trouble => simp [perform, hdeclare, bind, Except.bind] at h
  | ok r =>
      simp only [perform, hdeclare, bind, Except.bind, pure, Except.pure, Except.ok.injEq] at h
      subst h
      exact ⟨.declareAt hdeclare, Resolver.framesExtend_declareAt hdeclare, hs.program,
        (Resolver.declareAt_edits hdeclare).trans hs.edits⟩

theorem reaches_declareOutside (hs : s.Settled) (frame : Frame) (name : String) :
    s.Reaches { s with resolver := (s.resolver.declareIn frame name).1 } := by
  obtain ⟨counters, taken, renames, hsame⟩ := s.resolver.declareIn_frame frame name
  refine ⟨.one s.resolver frame name, Resolver.framesExtend_of_eq ?_, hs.program, ?_⟩
  · simp only [hsame]
  · simp only [hsame]
    exact hs.edits

/-- Mentioning a name makes no edit by itself; the tree may be given another program. -/
theorem reaches_mention (hs : s.Settled) (name : String) {tree : Tree}
    (htree : tree.isProgram = true) : s.Reaches ⟨(s.resolver.mention name).1, tree⟩ :=
  ⟨.mention s.resolver name, Resolver.framesExtend_of_eq (s.resolver.mention_frames name), htree,
    (s.resolver.mention_edits name).trans hs.edits⟩

theorem reaches_rewriteAt (hs : s.Settled) {path : Path}
    (h : s.perform (.rewriteAt path) = .ok s') : s.Reaches s' := by
  rw [perform] at h
  cases hlookup : s.tree.occurrences.lookup path with
  | none =>
      simp only [hlookup] at h
      obtain rfl := Except.ok.inj h
      exact hs.reaches_refl
  | some name =>
      simp only [hlookup] at h
      have hmentioned : ∀ tree : Tree, tree.isProgram = true →
          s.Reaches ⟨(s.resolver.mention name).1, tree⟩ := fun _ => reaches_mention hs name
      split at h <;> rename_i hmention <;> rw [hmention] at hmentioned <;>
        obtain rfl := Except.ok.inj h
      · refine hmentioned _ ?_
        -- an edit at an occurrence spells it anew
        have hoccurs : path ∈ s.tree.occurrences.map Prod.fst := by
          obtain ⟨l₁, l₂, heq, -⟩ := List.lookup_eq_some_iff.1 hlookup
          rw [heq]
          simp
        rw [edit_eq_respell (isFormed_of_isProgram hs.program) fun e he => by
          rw [List.mem_singleton.1 he]
          exact hoccurs]
        exact isProgram_respell hs.program
      · exact hmentioned _ hs.program

theorem reaches_run (hs : s.Settled) (h : s.perform .run = .ok s') : s.Reaches s' := by
  cases hrun : s.resolver.run s.tree with
  | error trouble => simp [perform, hrun, bind, Except.bind] at h
  | ok last =>
      simp only [perform, hrun, bind, Except.bind, pure, Except.pure, Except.ok.injEq] at h
      subst h
      have hprogram := Resolver.isProgram_run hs.program hs.edits hrun
      have hframes := Resolver.framesExtend_run hs.program hrun
      rw [Resolver.run_eq hs.program] at hrun
      cases hfollow : s.resolver.follow (events s.tree) with
      | error trouble => rw [hfollow] at hrun; cases hrun
      | ok r =>
          rw [hfollow] at hrun
          obtain rfl := Except.ok.inj hrun
          exact ⟨.trans (.follow hfollow) (.none rfl rfl rfl rfl), hframes, hprogram, rfl⟩

/-- **The step**: all that an action can do is that names are declared, while open frames keep
their bindings, and that the session is settled again. -/
theorem reaches_perform (hs : s.Settled) {action : Action} (h : s.perform action = .ok s') :
    s.Reaches s' := by
  cases action with
  | push =>
      obtain rfl := Except.ok.inj h
      exact ⟨.none rfl rfl rfl rfl, Resolver.framesExtend_of_cons rfl, hs.program, hs.edits⟩
  | pop => exact reaches_pop hs h
  | declare index name => exact reaches_declare hs h
  | declareOutside frame name =>
      obtain rfl := Except.ok.inj h
      exact reaches_declareOutside hs frame name
  | lookup name =>
      obtain rfl := Except.ok.inj h
      exact hs.reaches_refl
  | rewrite name =>
      obtain rfl := Except.ok.inj h
      exact reaches_mention hs name hs.program
  | rewriteAt path => exact reaches_rewriteAt hs h
  | run => exact reaches_run hs h

/-- **An action fails only for want of a frame**, so it is never done by halves. -/
theorem perform_error_iff (hs : s.Settled) (action : Action) :
    (∃ trouble, s.perform action = .error trouble) ↔ s.LacksFrame action := by
  cases action with
  | push | declareOutside _ _ | lookup _ | rewrite _ => simp [perform, LacksFrame]
  | pop =>
      rw [LacksFrame, perform, Resolver.pop]
      cases s.resolver.frames <;> simp [bind, Except.bind, pure, Except.pure]
  | declare index name =>
      rw [LacksFrame, perform, Resolver.declareAt]
      cases s.resolver.frameIndex? index <;> simp [bind, Except.bind, pure, Except.pure]
  | rewriteAt path =>
      refine ⟨?_, False.elim⟩
      rw [perform]
      rintro ⟨trouble, h⟩
      split at h
      · cases h
      · split at h <;> cases h
  | run =>
      rw [LacksFrame, perform]
      constructor
      · rintro ⟨trouble, h⟩
        obtain ⟨names, body, hregular⟩ := regular_events hs.program
        rcases List.eq_nil_or_concat' s.resolver.frames with hnil | ⟨inner, root, hframes⟩
        · exact hnil
        · obtain ⟨r, -, hrun, -⟩ := Resolver.run_program hs.program hregular hframes
          rw [hrun] at h
          cases h
      · intro hnil
        exact ⟨.noFrame, by rw [Resolver.run_program_nil hs.program hnil]; rfl⟩

theorem reaches_next (hs : s.Settled) (action : Action) : s.Reaches (s.next action) := by
  rw [next]
  cases h : s.perform action with
  | error trouble => exact hs.reaches_refl
  | ok s' => exact reaches_perform hs h

/-- Any number of actions declares names and leaves a settled session. -/
theorem after_settled (hs : s.Settled) (actions : List Action) :
    s.resolver.Declares (s.after actions).resolver ∧ (s.after actions).Settled := by
  induction actions generalizing s with
  | nil => exact ⟨.refl _, hs⟩
  | cons action rest ih =>
      obtain ⟨hdeclares, -, hnext⟩ := reaches_next hs action
      obtain ⟨hrest, hafter⟩ := ih hnext
      exact ⟨.trans hdeclares hrest, hafter⟩

/-- **A frame keeps its bindings as long as it is open.** -/
theorem after_extends (hs : s.Settled) {actions : List Action} {number : Nat} {frame : Frame}
    (hframe : s.resolver.scope? number = some frame)
    (hopen : ∀ before, before <+: actions → number < (s.after before).resolver.frames.length) :
    ∃ frame', (s.after actions).resolver.scope? number = some frame' ∧ Extends frame frame' := by
  induction actions generalizing s frame with
  | nil => exact ⟨frame, hframe, .refl frame⟩
  | cons action rest ih =>
      obtain ⟨-, hextend, hnext⟩ := reaches_next hs action
      have hlt : number < (s.next action).resolver.frames.length := hopen [action] ⟨rest, rfl⟩
      obtain ⟨mid, hmid⟩ : ∃ mid, (s.next action).resolver.scope? number = some mid :=
        ⟨_, List.getElem?_eq_getElem (by simpa using hlt)⟩
      obtain ⟨frame', hframe', hrest⟩ := ih hnext hmid fun before hbefore =>
        hopen (action :: before) (List.cons_prefix_cons.2 ⟨rfl, hbefore⟩)
      exact ⟨frame', hframe', (hextend number _ _ hframe hmid).trans hrest⟩

end Session

/-! ## Every state -/

/-- What holds of the names given in the state `s` of a session, if its tree had identifiers with
the names `known` at first. -/
structure NamesFresh (known : List String) (s : Session) : Prop where
  /-- An action fails just when there is no frame for it, and then nothing has been done. -/
  fails_iff : ∀ action, (∃ trouble, s.perform action = .error trouble) ↔ s.LacksFrame action
  /-- The search for a number ends, whatever the name and wherever it starts. -/
  search_ends : ∀ name count, ∃ found, Search s.resolver.taken name count found
  /-- A name that has been declared before, but not in this frame, gets the number that the
  search ends at, started above the last one: the least above it that makes a free name. -/
  declares : ∀ frame name last, frame.has name = false →
    s.resolver.counters.find? name = some last →
    ∃ count, Search s.resolver.taken name (last + 1) count ∧
      IsLeast {k | last < k ∧ numbered name k ∉ s.resolver.taken} count ∧
      s.resolver.declareIn frame name =
        ({ s.resolver with
            counters := s.resolver.counters.put name count
            taken := numbered name count :: s.resolver.taken
            renames := s.resolver.renames ++ [(name, numbered name count)] },
          frame.put name (numbered name count))
  /-- A name that the frame has keeps its mapping, and nothing else changes. -/
  declares_again : ∀ frame name, frame.has name = true →
    s.resolver.declareIn frame name = (s.resolver, frame)
  /-- A frame keeps its mappings when other names are declared in it. -/
  keeps : ∀ frame name, Extends frame (s.resolver.declareIn frame name).2
  /-- Taken are the names of the identifiers the tree had at first, and the names given. -/
  taken_iff : ∀ m, m ∈ s.resolver.taken ↔ m ∈ known ∨ m ∈ s.resolver.renames.map Prod.snd
  /-- No name is given twice. -/
  distinct : (s.resolver.renames.map Prod.snd).Nodup
  /-- No name is given that an identifier of the tree had at first. -/
  not_known : ∀ m ∈ s.resolver.renames.map Prod.snd, m ∉ known
  /-- Every name given is the old one with the least number above the counter of that time that
  made a free name. -/
  numbering : Numbering known s.resolver.renames s.resolver.lastNumber

/-- What stays as it is on the way from a state `s` of a session by some actions. -/
structure NamesKept (s : Session) (actions : List Action) : Prop where
  /-- No counter decreases. -/
  counters : ∀ name last, s.resolver.counters.find? name = some last →
    ∃ last', (s.after actions).resolver.counters.find? name = some last' ∧ last ≤ last'
  /-- A frame that stays open keeps the mappings it has. -/
  mappings : ∀ number frame, s.resolver.scope? number = some frame →
    (∀ before, before <+: actions → number < (s.after before).resolver.frames.length) →
    ∃ frame', (s.after actions).resolver.scope? number = some frame' ∧
      ∀ name new, frame.find? name = some new → frame'.find? name = some new

/-- **Generated names are fresh in every state**, for every program, every reserved names and
every sequence of actions. -/
theorem names_fresh_in_every_state {t : Tree} (h : t.isProgram = true) (reserved : List String) :
    ∃ known r, t.identifierNames = .ok known ∧ resolverFor t reserved false = .ok r ∧
      ∀ before more, NamesFresh known (Session.after ⟨r, t⟩ before) ∧
        NamesKept (Session.after ⟨r, t⟩ before) more := by
  obtain ⟨fields, rfl, hformed⟩ := exists_fields_of_isProgram h
  obtain ⟨known, hknown, -⟩ := identifierNames_ok hformed rfl
  refine ⟨known, _, hknown, by rw [resolverFor, hknown], fun before more => ?_⟩
  obtain ⟨hdeclares, hsettled⟩ := Session.after_settled (s := ⟨.start known reserved false, _⟩)
    ⟨h, rfl⟩ before
  have hnumbered := (Resolver.Numbered.start known reserved).declares hdeclares
  obtain ⟨hmore, -⟩ := Session.after_settled hsettled more
  refine ⟨?_, hmore.countersLe, fun number frame hframe hopen =>
    Session.after_extends hsettled hframe hopen⟩
  exact
    { fails_iff := Session.perform_error_iff hsettled
      search_ends := fun name count => ⟨_, search_freshNumber _ name count⟩
      declares := fun frame name last hframe hlast => by
        obtain ⟨count, hsearch, heq⟩ := Resolver.declareIn_counted hnumbered.real hframe hlast
        exact ⟨count, hsearch, hsearch.isLeast, heq⟩
      declares_again := fun frame name hframe => Resolver.declareIn_again _ hframe
      keeps := fun frame name => Resolver.extends_declareIn _ frame name
      taken_iff := hnumbered.taken_iff
      distinct := hnumbered.numbering.nodup
      not_known := hnumbered.numbering.not_known
      numbering := hnumbered.numbering }

set_option maxRecDepth 100000 in
/-- Names that are prefixes of each other, all numbered. -/
theorem names_fresh_in_every_state_prefixes :
    ∃ t, Grammar.parse .script "var a, a1; function f(a) { let a1, a11 = a; { let a } }" = .ok t ∧
      t.isProgram = true ∧ ∃ known r, t.identifierNames = .ok known ∧
        resolverFor t ["b"] false = .ok r ∧
        ∀ before more, NamesFresh known (Session.after ⟨r, t⟩ before) ∧
          NamesKept (Session.after ⟨r, t⟩ before) more := by
  have hprogram : (Grammar.parse .script
      "var a, a1; function f(a) { let a1, a11 = a; { let a } }").toOption.any isProgram = true := by
    decide +kernel
  cases hparse : Grammar.parse .script
      "var a, a1; function f(a) { let a1, a11 = a; { let a } }" with
  | error e => rw [hparse] at hprogram; cases hprogram
  | ok t =>
      rw [hparse] at hprogram
      exact ⟨t, rfl, hprogram, names_fresh_in_every_state hprogram ["b"]⟩

end NameRecovery.Scope
