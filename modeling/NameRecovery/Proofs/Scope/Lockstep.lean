import NameRecovery.Proofs.Scope.Nesting

/-!
# All runs see the same scopes

What a frame declares, where a mention is found and which names are free do not depend
on the names that are given.  So two runs over the same events, a dry one and a real
one, go in lockstep: they open and close the same scopes, and find every mention in
the same one.

* `Walk.Alike` — two walks that see the same;
* `Walk.Alike.step`, `Walk.Alike.follow` — they keep doing so.
-/

namespace NameRecovery.Scope

/-! ## The keys of frames -/

theorem has_eq_contains_keys (frame : Frame) (name : String) :
    frame.has name = frame.keys.contains name := by
  induction frame with
  | nil => rfl
  | cons entry rest ih =>
      obtain ⟨key, value⟩ := entry
      simp only [Table.has, Table.find?, Table.keys, List.map_cons, List.contains_cons,
        List.lookup_cons] at ih ⊢
      cases name == key with
      | true => rfl
      | false => rw [Bool.false_or]; exact ih

namespace Resolver

theorem keys_declareIn (r : Resolver) (frame : Frame) (name : String) :
    (r.declareIn frame name).2.keys =
      if name ∈ frame.keys then frame.keys else frame.keys ++ [name] := by
  rcases r.declareIn_cases frame name with
    ⟨hf, h⟩ | ⟨hf, -, counters, -, h⟩ | ⟨hf, -, -, count, -, h⟩
  · rw [has_eq_contains_keys] at hf
    rw [h, if_pos (List.contains_iff_mem.1 hf)]
  · rw [h, Table.keys_put]
  · rw [h, Table.keys_put]

/-- What a frame declares in the end depends on what it declared before. -/
theorem keys_declareAll (names : List String) : ∀ {r r' : Resolver} {frame frame' : Frame},
    frame.keys = frame'.keys →
      (r.declareAll frame names).2.keys = (r'.declareAll frame' names).2.keys := by
  induction names with
  | nil => intro r r' frame frame' h; exact h
  | cons name rest ih =>
      intro r r' frame frame' h
      have hkeys : (r.declareIn frame name).2.keys = (r'.declareIn frame' name).2.keys := by
        rw [keys_declareIn, keys_declareIn, h]
      exact ih hkeys

end Resolver

/-! ## Walks that see the same -/

namespace Walk

/-- The referent of a name depends on the nodes and the keys of the open frames. -/
def referentAmong (sites : List Path) (keys : List (List String)) (name : String) : Referent :=
  match (sites.zip keys).find? fun scope => scope.2.contains name with
  | some scope => .bound scope.1 name
  | none => .free name

theorem referent_eq_among (w : Walk) (name : String) :
    w.referent name = referentAmong w.sites (w.resolver.frames.map Table.keys) name := by
  rw [referent, referentAmong]
  generalize w.resolver.frames = frames
  generalize w.sites = sites
  induction sites generalizing frames with
  | nil => rfl
  | cons site sites ih =>
      cases frames with
      | nil => rfl
      | cons frame frames =>
          rw [List.map_cons, List.zip_cons_cons, List.zip_cons_cons, List.find?_cons,
            List.find?_cons, has_eq_contains_keys]
          cases frame.keys.contains name with
          | true => rfl
          | false => exact ih frames

theorem lookup_isNone (r : Resolver) (name : String) :
    (r.lookup name).isNone = (r.frames.map Table.keys).all fun keys => !keys.contains name := by
  rw [Resolver.lookup]
  induction r.frames with
  | nil => rfl
  | cons frame frames ih =>
      rw [List.findSome?_cons, List.map_cons, List.all_cons, ← has_eq_contains_keys, ← ih,
        Table.has]
      cases frame.find? name <;> rfl

/-- Two walks see the same scopes, mentions and free names. -/
structure Alike (w w' : Walk) : Prop where
  /-- The same scopes are open. -/
  sites : w.sites = w'.sites
  /-- Their frames declare the same names. -/
  frames : w.resolver.frames.map Table.keys = w'.resolver.frames.map Table.keys
  /-- The frames filled so far belong to the same nodes and declare the same names. -/
  filled : (w.filled.map fun scope => (scope.1, scope.2.keys)) =
    w'.filled.map fun scope => (scope.1, scope.2.keys)
  /-- All mentions mean the same. -/
  referents : w.referents = w'.referents
  /-- The same names are free. -/
  free : w.resolver.free = w'.resolver.free

namespace Alike

variable {w w' v v' : Walk}

theorem step_enter (h : w.Alike w') {scope : Path} {names : List String}
    (hw : w.step (.enter scope names) = .ok v) (hw' : w'.step (.enter scope names) = .ok v') :
    v.Alike v' := by
  obtain ⟨hres, hnote⟩ := step_ok hw
  obtain ⟨hres', hnote'⟩ := step_ok hw'
  rw [Resolver.step_enter] at hres hres'
  have hnext := (Except.ok.inj hres).symm
  have hnext' := (Except.ok.inj hres').symm
  obtain ⟨counters, taken, renames, hframe⟩ := w.resolver.declareAll_frame names []
  obtain ⟨counters', taken', renames', hframe'⟩ := w'.resolver.declareAll_frame names []
  have hkeys : (w.resolver.declareAll [] names).2.keys =
      (w'.resolver.declareAll [] names).2.keys := Resolver.keys_declareAll names rfl
  rw [hnext] at hnote
  rw [hnext'] at hnote'
  rw [hnote, hnote']
  refine ⟨?_, ?_, ?_, h.referents, ?_⟩
  · simp only [note, h.sites]
  · simp only [note, List.map_cons, hkeys, h.frames]
  · simp only [note, List.map_cons, List.headD_cons, hkeys, h.filled]
  · simp only [note, hframe, hframe', h.free]

theorem step_leave (h : w.Alike w') (hw : w.step .leave = .ok v) (hw' : w'.step .leave = .ok v') :
    v.Alike v' := by
  obtain ⟨hres, hnote⟩ := step_ok hw
  obtain ⟨hres', hnote'⟩ := step_ok hw'
  obtain ⟨frame, frames, hframes, hnext⟩ := Resolver.step_leave hres
  obtain ⟨frame', frames', hframes', hnext'⟩ := Resolver.step_leave hres'
  have hopen := h.frames
  rw [hframes, hframes', List.map_cons, List.map_cons] at hopen
  rw [hnext] at hnote
  rw [hnext'] at hnote'
  rw [hnote, hnote']
  refine ⟨?_, (List.cons.inj hopen).2, h.filled, h.referents, h.free⟩
  simp only [note, h.sites]

theorem step_mention (h : w.Alike w') {path : Path} {name : String}
    (hw : w.step (.mention path name) = .ok v) (hw' : w'.step (.mention path name) = .ok v') :
    v.Alike v' := by
  obtain ⟨hres, hnote⟩ := step_ok hw
  obtain ⟨hres', hnote'⟩ := step_ok hw'
  have hreferent : w.referent name = w'.referent name := by
    rw [referent_eq_among, referent_eq_among, h.sites, h.frames]
  have hnone : (w.resolver.lookup name).isNone = (w'.resolver.lookup name).isNone := by
    rw [lookup_isNone, lookup_isNone, h.frames]
  obtain ⟨next, hstep, hframes⟩ := w.resolver.step_mention_frames path name
  obtain ⟨next', hstep', hframes'⟩ := w'.resolver.step_mention_frames path name
  have hnext := Except.ok.inj (hstep.symm.trans hres)
  have hnext' := Except.ok.inj (hstep'.symm.trans hres')
  have hfree : v.resolver.free = v'.resolver.free := by
    cases hlookup : w.resolver.lookup name with
    | none =>
        have hlookup' : w'.resolver.lookup name = none := by
          rw [hlookup] at hnone
          exact Option.isNone_iff_eq_none.1 hnone.symm
        rw [Resolver.step_mention_free path hlookup] at hres
        rw [Resolver.step_mention_free path hlookup'] at hres'
        rw [← Except.ok.inj hres, ← Except.ok.inj hres']
        simp only [h.free]
    | some new =>
        obtain ⟨new', hlookup'⟩ : ∃ new', w'.resolver.lookup name = some new' := by
          rw [hlookup] at hnone
          cases hlookup' : w'.resolver.lookup name with
          | none => rw [hlookup'] at hnone; cases hnone
          | some new' => exact ⟨new', rfl⟩
        rw [Resolver.step_mention_bound path hlookup] at hres
        rw [Resolver.step_mention_bound path hlookup'] at hres'
        rw [← Except.ok.inj hres, ← Except.ok.inj hres']
        split <;> split <;> exact h.free
  refine ⟨?_, ?_, ?_, ?_, hfree⟩
  · rw [hnote, hnote']
    exact h.sites
  · rw [← hnext, ← hnext', hframes, hframes', h.frames]
  · rw [hnote, hnote']
    exact h.filled
  · rw [hnote, hnote']
    simp only [note, h.referents, hreferent]

/-- Walks that see the same go on to see the same. -/
theorem step (h : w.Alike w') {event : Event} (hplain : event.isPlain = true)
    (hw : w.step event = .ok v) (hw' : w'.step event = .ok v') : v.Alike v' := by
  cases event with
  | declare _ | broken _ => cases hplain
  | enter scope names => exact h.step_enter hw hw'
  | leave => exact h.step_leave hw hw'
  | mention path name => exact h.step_mention hw hw'

theorem follow {events : List Event} (h : w.Alike w') (hplain : ∀ e ∈ events, e.isPlain = true)
    (hw : w.follow events = .ok v) (hw' : w'.follow events = .ok v') : v.Alike v' := by
  induction events generalizing w w' with
  | nil => rw [← Except.ok.inj hw, ← Except.ok.inj hw']; exact h
  | cons event rest ih =>
      obtain ⟨next, hstep, hw⟩ := Walk.follow_cons_ok hw
      obtain ⟨next', hstep', hw'⟩ := Walk.follow_cons_ok hw'
      exact ih (h.step (hplain _ List.mem_cons_self) hstep hstep')
        (fun e he => hplain e (List.mem_cons_of_mem _ he)) hw hw'

end Alike
end Walk
end NameRecovery.Scope
