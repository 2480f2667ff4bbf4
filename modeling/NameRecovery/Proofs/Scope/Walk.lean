import NameRecovery.Proofs.Scope.Naming

/-!
# What a walk through the scopes notes

The resolver keeps the frames of the open scopes only.  A `Walk` goes along with
it and notes what the resolver does: every frame that is filled, with the node it
belongs to, and for every mention the frame in which its name was found.

* `Referent` — the binding a mention means, told by the node of its scope and its
  name, or a name the program does not declare;
* `Walk.referent` — the frame in which the resolver finds a name, as a referent;
* `walkThrough` — the walk through a whole tree;
* `Walk.follow_resolver` — a walk ends where its resolver ends.
-/

namespace NameRecovery.Scope

/-- What a mention means. -/
inductive Referent where
  /-- The binding of the name in the scope of the node at a path. -/
  | bound (scope : Path) (name : String)
  /-- A name that is declared in no open scope. -/
  | free (name : String)
  deriving Repr, DecidableEq

/-- The name that was mentioned. -/
def Referent.name : Referent → String
  | .bound _ name => name
  | .free name => name

/-- A resolver on its way, and what it has done so far. -/
structure Walk where
  /-- The resolver. -/
  resolver : Resolver
  /-- The nodes whose scopes are open, innermost first. -/
  sites : List Path := [[]]
  /-- The frames filled so far. -/
  filled : Filled := []
  /-- The mentions met so far, with what they mean. -/
  referents : List (Path × Referent) := []

namespace Walk

/-- What a mention of the name means here: the binding in the frame that the resolver
finds it in. -/
def referent (w : Walk) (name : String) : Referent :=
  match (w.sites.zip w.resolver.frames).find? fun scope => scope.2.has name with
  | some scope => .bound scope.1 name
  | none => .free name

/-- Note what the resolver did with an event, given the resolver after it. -/
def note (w : Walk) (event : Event) (next : Resolver) : Walk :=
  match event with
  | .declare _ => { w with resolver := next, filled := ([], next.frames.getLastD []) :: w.filled }
  | .enter scope _ =>
    { w with
      resolver := next
      sites := scope :: w.sites
      filled := (scope, next.frames.headD []) :: w.filled }
  | .leave => { w with resolver := next, sites := w.sites.tail }
  | .mention path name =>
    { w with resolver := next, referents := w.referents ++ [(path, w.referent name)] }
  | .broken _ => { w with resolver := next }

/-- Follow one event. -/
def step (w : Walk) (event : Event) : Except Trouble Walk :=
  (w.resolver.step event).map (w.note event)

/-- Follow the events of a program. -/
def follow (w : Walk) : List Event → Except Trouble Walk
  | [] => .ok w
  | event :: rest => do (← w.step event).follow rest

end Walk

/-- The walk of a resolver through the scopes of a tree. -/
def walkThrough (t : Tree) (reserved : List String) (dryRun : Bool) : Except Trouble Walk := do
  Walk.follow { resolver := ← resolverFor t reserved dryRun } (events t)

/-! ## Single events -/

namespace Resolver

theorem step_enter (r : Resolver) (scope : Path) (names : List String) :
    r.step (.enter scope names) =
      .ok { (r.declareAll [] names).1 with
        frames := (r.declareAll [] names).2 :: r.frames } := by
  obtain ⟨counters, taken, renames, h⟩ := r.declareAll_frame names []
  simp only [step, h]

theorem step_leave {r r' : Resolver} (h : r.step .leave = .ok r') :
    ∃ frame frames, r.frames = frame :: frames ∧ r' = { r with frames } := by
  cases hframes : r.frames with
  | nil => simp [step, pop, hframes, bind, Except.bind] at h
  | cons frame frames =>
      simp only [step, pop, hframes, bind, Except.bind, pure, Except.pure, Except.ok.injEq] at h
      exact ⟨frame, frames, rfl, h.symm⟩

theorem step_mention_free {r : Resolver} {name : String} (path : Path)
    (h : r.lookup name = none) :
    r.step (.mention path name) =
      .ok { r with free := if r.free.contains name then r.free else name :: r.free } := by
  simp [step, mention, h]

theorem step_mention_bound {r : Resolver} {name new : String} (path : Path)
    (h : r.lookup name = some new) :
    r.step (.mention path name) =
      .ok (if new ≠ name ∧ ¬ r.dryRun then
        { r with respelled := r.respelled + 1, edits := (path, new) :: r.edits } else r) := by
  by_cases hnew : new ≠ name ∧ ¬ r.dryRun
  · simp only [step, mention, h, if_pos hnew]
  · simp only [step, mention, h, if_neg hnew]

/-- Following a list of events is following its first part and then the rest. -/
theorem follow_append (r : Resolver) (first rest : List Event) :
    r.follow (first ++ rest) = (r.follow first).bind fun next => next.follow rest := by
  induction first generalizing r with
  | nil => rfl
  | cons event first ih =>
      simp only [List.cons_append, follow, bind, Except.bind]
      cases r.step event with
      | error e => rfl
      | ok next => exact ih next

end Resolver

namespace Walk

theorem note_resolver (w : Walk) (event : Event) (next : Resolver) :
    (w.note event next).resolver = next := by
  cases event <;> rfl

theorem step_ok {w w' : Walk} {event : Event} (h : w.step event = .ok w') :
    w.resolver.step event = .ok w'.resolver ∧ w' = w.note event w'.resolver := by
  rw [step] at h
  cases hstep : w.resolver.step event with
  | error e => rw [hstep] at h; exact absurd h (by simp [Except.map])
  | ok next =>
      rw [hstep] at h
      have heq : w' = w.note event next := (Except.ok.inj h).symm
      have hres : w'.resolver = next := by rw [heq, note_resolver]
      exact ⟨by rw [hres], by rw [hres]; exact heq⟩

theorem step_of_resolver {w : Walk} {event : Event} {next : Resolver}
    (h : w.resolver.step event = .ok next) : w.step event = .ok (w.note event next) := by
  rw [step, h]
  rfl

/-- A run that succeeds takes its first step and goes on from there. -/
theorem follow_cons_ok {w w' : Walk} {event : Event} {rest : List Event}
    (h : w.follow (event :: rest) = .ok w') :
    ∃ next, w.step event = .ok next ∧ next.follow rest = .ok w' := by
  rw [follow] at h
  cases hstep : w.step event with
  | error e => rw [hstep] at h; cases h
  | ok next => rw [hstep] at h; exact ⟨next, rfl, h⟩

/-- A walk ends where its resolver ends. -/
theorem follow_resolver (w : Walk) (events : List Event) :
    (w.follow events).map Walk.resolver = w.resolver.follow events := by
  induction events generalizing w with
  | nil => rfl
  | cons event rest ih =>
      simp only [follow, Resolver.follow, step, bind, Except.bind]
      cases hstep : w.resolver.step event with
      | error e => rfl
      | ok next =>
          simp only [Except.map]
          have h := ih (w.note event next)
          rw [note_resolver] at h
          exact h

end Walk
end NameRecovery.Scope
