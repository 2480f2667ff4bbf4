import NameRecovery.Proofs.Scope.Label
import NameRecovery.Proofs.Scope.Run

/-!
# Runs from any state

A resolver may be run when scopes are open already, and more than once.  The names of the
program are then declared in the outermost frame, whatever else is open, and the frames
further in stay as they are.

* `Resolver.run_program` — a run through a program ends if a frame is open;
* `Resolver.edits_follow` — events give new names to what they mention only;
* `Resolver.isProgram_run` — a program stays one.
-/

namespace NameRecovery.Scope

open NameRecovery.Tree

namespace Resolver

/-- The frame with the number zero is the outermost one. -/
theorem declareAt_zero {r : Resolver} {inner : List Frame} {root : Frame}
    (hframes : r.frames = inner ++ [root]) (names : List String) :
    r.declareAt 0 names = .ok { (r.declareAll root names).1 with
      frames := inner ++ [(r.declareAll root names).2] } := by
  obtain ⟨counters, taken, renames, hdeclared⟩ := r.declareAll_frame names root
  have hindex : r.frameIndex? 0 = some inner.length := by
    simp only [frameIndex?, hframes, List.length_append, List.length_singleton]
    rw [if_pos (by omega)]
    congr 1
    omega
  have hroot : r.frames.getD inner.length [] = root := by simp [hframes]
  have hset : (r.declareAll root names).1.frames.set inner.length (r.declareAll root names).2 =
      inner ++ [(r.declareAll root names).2] := by
    rw [hdeclared, hframes]
    simp
  rw [declareAt, hindex, ← hset]
  simp only [hroot]

theorem declareAt_zero_nil {r : Resolver} (hframes : r.frames = []) (names : List String) :
    r.declareAt 0 names = .error .noFrame := by
  have hindex : r.frameIndex? 0 = none := by simp [frameIndex?, hframes]
  rw [declareAt, hindex]

theorem mention_frames (r : Resolver) (name : String) : (r.mention name).1.frames = r.frames := by
  rw [mention]
  split
  · rfl
  · split <;> rfl

theorem mention_edits (r : Resolver) (name : String) : (r.mention name).1.edits = r.edits := by
  rw [mention]
  split
  · rfl
  · split <;> rfl

/-- Events give new names to what they mention only. -/
theorem edits_follow {r r' : Resolver} {events : List Event} (hrun : r.follow events = .ok r') :
    ∀ e ∈ r'.edits, e ∈ r.edits ∨ e.1 ∈ mentionPaths events := by
  induction events generalizing r with
  | nil => rw [← Except.ok.inj hrun]; exact fun e he => .inl he
  | cons event rest ih =>
      rw [follow] at hrun
      cases hstep : r.step event with
      | error trouble => rw [hstep] at hrun; cases hrun
      | ok next =>
          rw [hstep] at hrun
          intro e he
          rcases ih hrun e he with hnext | hrest
          · cases event with
            | declare names =>
                rw [step, declareAt] at hstep
                split at hstep
                · cases hstep
                · rename_i i _
                  obtain ⟨counters, taken, renames, heq⟩ :=
                    r.declareAll_frame names (r.frames.getD i [])
                  rw [← Except.ok.inj hstep] at hnext
                  simp only [heq] at hnext
                  exact .inl hnext
            | enter scope names =>
                obtain ⟨counters, taken, renames, heq⟩ := r.declareAll_frame names []
                rw [step_enter] at hstep
                rw [← Except.ok.inj hstep, heq] at hnext
                exact .inl hnext
            | leave =>
                obtain ⟨frame, frames, -, rfl⟩ := step_leave hstep
                exact .inl hnext
            | mention path name =>
                rw [mentionPaths_mention, List.mem_cons]
                cases hlookup : r.lookup name with
                | none =>
                    rw [step_mention_free path hlookup] at hstep
                    rw [← Except.ok.inj hstep] at hnext
                    exact .inl hnext
                | some new =>
                    rw [step_mention_bound path hlookup] at hstep
                    rw [← Except.ok.inj hstep] at hnext
                    split at hnext
                    · rcases List.mem_cons.1 hnext with rfl | hold
                      · exact .inr (.inl rfl)
                      · exact .inl hold
                    · exact .inl hnext
            | broken fault => cases hstep
          · right
            rw [mentionPaths, List.filterMap_cons]
            split
            · exact hrest
            · exact List.mem_cons_of_mem _ hrest

section Program

variable {t : Tree} {names : List String} {body : List Event}

/-- Running through a program declares its names in the outermost frame, and then follows the
events of its statements. -/
theorem follow_program (hregular : Regular t names body) {r : Resolver} {inner : List Frame}
    {root : Frame} (hframes : r.frames = inner ++ [root]) :
    ∃ opened r', r.step (.declare names) = .ok opened ∧ opened.follow body = .ok r' ∧
      r.follow (events t) = .ok r' ∧ opened.frames = inner ++ [(r.declareAll root names).2] ∧
      r'.frames = opened.frames := by
  have hdeclare := declareAt_zero hframes names
  obtain ⟨w, hw, hend, -⟩ := hregular.nested.follow { resolver := { (r.declareAll root names).1 with
    frames := inner ++ [(r.declareAll root names).2] } }
  have hfollow := Walk.follow_resolver { resolver := { (r.declareAll root names).1 with
    frames := inner ++ [(r.declareAll root names).2] } } body
  rw [hw] at hfollow
  refine ⟨_, w.resolver, hdeclare, hfollow.symm, ?_, rfl, hend⟩
  rw [hregular.events_eq, follow, step, hdeclare]
  exact hfollow.symm

theorem run_eq (h : t.isProgram = true) (r : Resolver) :
    r.run t = (r.follow (events t)).map fun r' => ({ r' with edits := [] }, t.edit r'.edits) := by
  obtain ⟨fields, rfl, -⟩ := exists_fields_of_isProgram h
  have hneed : (Tree.node "Program" fields).need "type" = .ok (.text "Program") := rfl
  rw [run, hneed]
  simp only [bind, Except.bind]
  cases r.follow (events (.node "Program" fields)) <;> rfl

/-- **A run through a program ends** if a frame is open. -/
theorem run_program (h : t.isProgram = true) (hregular : Regular t names body) {r : Resolver}
    {inner : List Frame} {root : Frame} (hframes : r.frames = inner ++ [root]) :
    ∃ r', r.follow (events t) = .ok r' ∧
      r.run t = .ok ({ r' with edits := [] }, t.edit r'.edits) ∧
      r'.frames = inner ++ [(r.declareAll root names).2] := by
  obtain ⟨opened, r', -, -, hfollow, hopened, hend⟩ := follow_program hregular hframes
  exact ⟨r', hfollow, by rw [run_eq h, hfollow]; rfl, hend.trans hopened⟩

/-- Without a frame there is none for the names of the program. -/
theorem run_program_nil (h : t.isProgram = true) {r : Resolver} (hframes : r.frames = []) :
    r.run t = .error .noFrame := by
  obtain ⟨names, body, hregular⟩ := regular_events h
  rw [run_eq h, hregular.events_eq, follow, step, declareAt_zero_nil hframes]
  rfl

/-- The new names of a run are those of occurrences. -/
theorem edits_run (hregular : Regular t names body) {r r' : Resolver} (hedits : r.edits = [])
    (hrun : r.follow (events t) = .ok r') : ∀ e ∈ r'.edits, e.1 ∈ t.occurrences.map Prod.fst := by
  intro e he
  rcases edits_follow hrun e he with hold | hnew
  · rw [hedits] at hold
    exact absurd hold List.not_mem_nil
  · rw [hregular.events_eq] at hnew
    rw [← hregular.mentions_eq, ← mentionPaths_eq]
    exact hnew

/-- **A program stays a program.** -/
theorem isProgram_run (h : t.isProgram = true) {r r' : Resolver} {t' : Tree}
    (hedits : r.edits = []) (hrun : r.run t = .ok (r', t')) : t'.isProgram = true := by
  obtain ⟨names, body, hregular⟩ := regular_events h
  rw [run_eq h] at hrun
  cases hfollow : r.follow (events t) with
  | error trouble => rw [hfollow] at hrun; cases hrun
  | ok last =>
      rw [hfollow] at hrun
      obtain ⟨-, rfl⟩ := Prod.mk.inj (Except.ok.inj hrun)
      rw [edit_eq_respell (isFormed_of_isProgram h) (edits_run hregular hedits hfollow)]
      exact isProgram_respell h

end Program

end Resolver
end NameRecovery.Scope
