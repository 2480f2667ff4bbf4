import NameRecovery.Proofs.Scope.Walk

/-!
# Mentions are spelled as their frames say

In a real run the resolver notes a new name for every mention whose binding got
one.  `Walk.Sound` says what holds on the way: the names given are separate, the
open scopes are among those filled, and every mention met so far is spelled with
the name its frame gives, or stays as it is when it is free.

* `Walk.Sound.step` — one event keeps it;
* `Walk.Sound.follow` — so does every run.
-/

namespace NameRecovery.Scope

/-! ## Reading lists of events -/

namespace Event

/-- Is this an event of a scope below the program's own? -/
def isPlain : Event → Bool
  | .enter _ _ | .leave | .mention _ _ => true
  | .declare _ | .broken _ => false

/-- The path of a mention. -/
def mentionPath? : Event → Option Path
  | .mention path _ => some path
  | _ => none

/-- The node whose scope is entered. -/
def scope? : Event → Option Path
  | .enter scope _ => some scope
  | _ => none

/-- The names an event declares or mentions. -/
def names : Event → List String
  | .declare names | .enter _ names => names
  | .mention _ name => [name]
  | .leave | .broken _ => []

end Event

/-- The paths mentioned, in order. -/
def mentionPaths (events : List Event) : List Path :=
  events.filterMap Event.mentionPath?

/-- The nodes whose scopes are entered, in order. -/
def enteredScopes (events : List Event) : List Path :=
  events.filterMap Event.scope?

theorem mentionPaths_mention (path : Path) (name : String) (rest : List Event) :
    mentionPaths (.mention path name :: rest) = path :: mentionPaths rest := rfl

theorem lookup_eq_none_of_not_mem {edits : Edits} {path : Path}
    (h : path ∉ edits.map Prod.fst) : edits.lookup path = none := by
  rw [List.lookup_eq_none_iff]
  intro edit hmem
  have hne : path ≠ edit.1 := fun heq => h (heq ▸ List.mem_map_of_mem hmem)
  simpa using hne

theorem lookup_cons_of_ne {edits : Edits} {path other : Path} {new : String}
    (h : path ≠ other) : List.lookup path ((other, new) :: edits) = edits.lookup path := by
  rw [List.lookup_cons, beq_false_of_ne h]

/-! ## What a look-up finds -/

/-- The frame a walk finds a name in is the one the resolver takes its new name
from. -/
theorem Walk.referent_cases (w : Walk) (name : String)
    (hlength : w.sites.length = w.resolver.frames.length) :
    (w.referent name = .free name ∧ w.resolver.lookup name = none) ∨
    (∃ scope frame new, w.referent name = .bound scope name ∧
      (scope, frame) ∈ w.sites.zip w.resolver.frames ∧ frame.find? name = some new ∧
      w.resolver.lookup name = some new) := by
  rw [Walk.referent, Resolver.lookup]
  generalize w.resolver.frames = frames at hlength ⊢
  generalize w.sites = sites at hlength ⊢
  induction frames generalizing sites with
  | nil => left; simp
  | cons frame frames ih =>
      cases sites with
      | nil => simp at hlength
      | cons site sites =>
          rw [List.zip_cons_cons]
          cases hfind : frame.find? name with
          | some new =>
              right
              have hhas : frame.has name = true := by rw [Table.has, hfind]; rfl
              refine ⟨site, frame, new, ?_, List.mem_cons_self .., hfind, ?_⟩
              · simp only [List.find?_cons, hhas]
              · rw [List.findSome?_cons, hfind]
          | none =>
              have hhas : frame.has name = false := by rw [Table.has, hfind]; rfl
              simp only [List.find?_cons, hhas, List.findSome?_cons, hfind]
              rcases ih sites (by simpa using hlength) with h | ⟨scope, f, new, href, hmem, hrest⟩
              · exact Or.inl h
              · exact Or.inr ⟨scope, f, new, href, List.mem_cons_of_mem _ hmem, hrest⟩

/-! ## The invariant of a real run -/

/-- What holds of a real run that has `rest` before it. -/
structure Walk.Sound (known reserved : List String) (w : Walk) (rest : List Event) : Prop where
  /-- No name is given twice. -/
  separate : Separate known reserved w.resolver w.filled
  /-- Every open frame belongs to a node. -/
  open_length : w.sites.length = w.resolver.frames.length
  /-- The open frames are among those filled. -/
  open_filled : ∀ scope ∈ w.sites.zip w.resolver.frames, scope ∈ w.filled
  /-- A mention of a binding is spelled with the name the binding got. -/
  bound_spelled : ∀ {p s n}, (p, .bound s n) ∈ w.referents →
    w.filled.Gives s n ((w.resolver.edits.lookup p).getD n)
  /-- A free mention keeps its spelling. -/
  free_spelled : ∀ {p n}, (p, .free n) ∈ w.referents →
    w.resolver.edits.lookup p = none ∧ n ∈ w.resolver.free
  /-- The free names are those of free mentions. -/
  free_mentioned : ∀ n ∈ w.resolver.free, ∃ p, (p, .free n) ∈ w.referents
  /-- Only mentions met so far are respelled. -/
  edits_met : ∀ p ∈ w.resolver.edits.map Prod.fst, p ∈ w.referents.map Prod.fst
  /-- All that is to come lies below the program's own scope. -/
  plain : ∀ e ∈ rest, e.isPlain = true
  /-- No node has its scope entered twice. -/
  scopes_nodup : (w.filled.map Prod.fst ++ enteredScopes rest).Nodup
  /-- No path is mentioned twice. -/
  paths_nodup : (w.referents.map Prod.fst ++ mentionPaths rest).Nodup
  /-- All names to come are spelled in the program. -/
  names_known : ∀ e ∈ rest, ∀ n ∈ e.names, n ∈ known

namespace Walk.Sound

variable {known reserved : List String} {w w' : Walk} {rest : List Event}

/-- A node has one frame. -/
theorem filled_unique (h : w.Sound known reserved rest) {s : Path} {f g : Frame}
    (hf : (s, f) ∈ w.filled) (hg : (s, g) ∈ w.filled) : f = g := by
  have hnodup : (w.filled.map Prod.fst).Nodup := (List.nodup_append.1 h.scopes_nodup).1
  exact (Prod.mk.injEq .. ▸ List.inj_on_of_nodup_map hnodup hf hg rfl).2

theorem gives_unique (h : w.Sound known reserved rest) {s : Path} {n m k : String}
    (hm : w.filled.Gives s n m) (hk : w.filled.Gives s n k) : m = k := by
  obtain ⟨f, hf, hfm⟩ := hm
  obtain ⟨g, hg, hgk⟩ := hk
  rw [h.filled_unique hf hg, hgk] at hfm
  exact (Option.some.inj hfm).symm

theorem gives_mono {filled : Filled} {scope s : Path} {frame : Frame} {n m : String}
    (h : filled.Gives s n m) : Filled.Gives ((scope, frame) :: filled) s n m := by
  obtain ⟨f, hf, hfind⟩ := h
  exact ⟨f, List.mem_cons_of_mem _ hf, hfind⟩

theorem tail_plain {event : Event} (h : w.Sound known reserved (event :: rest)) :
    ∀ e ∈ rest, e.isPlain = true :=
  fun e he => h.plain e (List.mem_cons_of_mem _ he)

theorem tail_known {event : Event} (h : w.Sound known reserved (event :: rest)) :
    ∀ e ∈ rest, ∀ n ∈ e.names, n ∈ known :=
  fun e he => h.names_known e (List.mem_cons_of_mem _ he)

/-- An event that is no mention leaves the spelling of mentions as it is. -/
theorem unmentioned {event : Event} (h : w.Sound known reserved (event :: rest))
    (hmention : event.mentionPath? = none) (hrefs : w'.referents = w.referents)
    (hedits : w'.resolver.edits = w.resolver.edits) (hfree : w'.resolver.free = w.resolver.free)
    (hfilled : ∀ scope ∈ w.filled, scope ∈ w'.filled)
    (hseparate : Separate known reserved w'.resolver w'.filled)
    (hlength : w'.sites.length = w'.resolver.frames.length)
    (hopen : ∀ scope ∈ w'.sites.zip w'.resolver.frames, scope ∈ w'.filled)
    (hscopes : (w'.filled.map Prod.fst ++ enteredScopes rest).Nodup) :
    w'.Sound known reserved rest where
  separate := hseparate
  open_length := hlength
  open_filled := hopen
  bound_spelled := by
    intro p s n hp
    obtain ⟨frame, hframe, hfind⟩ := h.bound_spelled (hrefs ▸ hp)
    exact ⟨frame, hfilled _ hframe, by rw [hedits]; exact hfind⟩
  free_spelled := by
    intro p n hp
    rw [hedits, hfree]
    exact h.free_spelled (hrefs ▸ hp)
  free_mentioned := by
    rw [hfree, hrefs]
    exact h.free_mentioned
  edits_met := by
    rw [hedits, hrefs]
    exact h.edits_met
  plain := h.tail_plain
  scopes_nodup := hscopes
  paths_nodup := by
    have hpaths := h.paths_nodup
    rw [mentionPaths, List.filterMap_cons_none hmention] at hpaths
    rw [hrefs]
    exact hpaths
  names_known := h.tail_known

theorem step_enter {scope : Path} {names : List String}
    (h : w.Sound known reserved (.enter scope names :: rest))
    (hstep : w.step (.enter scope names) = .ok w') : w'.Sound known reserved rest := by
  obtain ⟨hres, hnote⟩ := step_ok hstep
  rw [Resolver.step_enter] at hres
  have hnext := (Except.ok.inj hres).symm
  obtain ⟨counters, taken, renames, hframe⟩ := w.resolver.declareAll_frame names []
  have hframes : w'.resolver.frames = (w.resolver.declareAll [] names).2 :: w.resolver.frames := by
    rw [hnext]
  have hfilled : w'.filled = (scope, (w.resolver.declareAll [] names).2) :: w.filled := by
    rw [hnote]
    simp only [note, hframes, List.headD_cons]
  have hsites : w'.sites = scope :: w.sites := by rw [hnote]; rfl
  have hsep := h.separate.declareAll scope (h.names_known _ (List.mem_cons_self ..))
  refine h.unmentioned rfl (by rw [hnote]; rfl) (by rw [hnext, hframe]) (by rw [hnext, hframe])
    ?_ ?_ ?_ ?_ ?_
  · rw [hfilled]
    exact fun x hx => List.mem_cons_of_mem _ hx
  · rw [hfilled]
    exact hsep.congr (by rw [hnext]; rfl) (by rw [hnext]; rfl) (by rw [hnext]; rfl)
  · rw [hsites, hframes, List.length_cons, List.length_cons, h.open_length]
  · rw [hsites, hframes, hfilled, List.zip_cons_cons]
    intro x hx
    rcases List.mem_cons.1 hx with rfl | hx
    · exact List.mem_cons_self ..
    · exact List.mem_cons_of_mem _ (h.open_filled x hx)
  · rw [hfilled]
    exact (List.perm_middle.nodup_iff).1 h.scopes_nodup

theorem step_leave (h : w.Sound known reserved (.leave :: rest))
    (hstep : w.step .leave = .ok w') : w'.Sound known reserved rest := by
  obtain ⟨hres, hnote⟩ := step_ok hstep
  obtain ⟨frame, frames, hframes, hnext⟩ := Resolver.step_leave hres
  have hsites : w'.sites = w.sites.tail := by rw [hnote]; rfl
  have hframes' : w'.resolver.frames = w.resolver.frames.tail := by rw [hnext, hframes]; rfl
  have hfilled : w'.filled = w.filled := by rw [hnote]; rfl
  refine h.unmentioned rfl (by rw [hnote]; rfl) (by rw [hnext]) (by rw [hnext]) ?_ ?_ ?_ ?_ ?_
  · rw [hfilled]
    exact fun x hx => hx
  · rw [hfilled]
    exact h.separate.congr (by rw [hnext]) (by rw [hnext]) (by rw [hnext])
  · rw [hsites, hframes', List.length_tail, List.length_tail, h.open_length]
  · intro x hx
    rw [hsites, hframes', ← List.tail_zip] at hx
    rw [hfilled]
    exact h.open_filled x (List.mem_of_mem_tail hx)
  · rw [hfilled]
    exact h.scopes_nodup

/-- The path mentioned next has not been mentioned, and is not respelled yet. -/
theorem mention_fresh {path : Path} {name : String}
    (h : w.Sound known reserved (.mention path name :: rest)) :
    path ∉ w.referents.map Prod.fst ∧ w.resolver.edits.lookup path = none := by
  have hpaths := h.paths_nodup
  rw [mentionPaths_mention] at hpaths
  have hfresh : path ∉ w.referents.map Prod.fst := fun hmem =>
    (List.nodup_append.1 hpaths).2.2 path hmem path (List.mem_cons_self ..) rfl
  exact ⟨hfresh, lookup_eq_none_of_not_mem fun hmem => hfresh (h.edits_met path hmem)⟩

/-- A mention changes the free names and the new spellings at most. -/
theorem mentioned {path : Path} {name : String}
    (h : w.Sound known reserved (.mention path name :: rest))
    (hrefs : w'.referents = w.referents ++ [(path, w.referent name)])
    (hsites : w'.sites = w.sites) (hfilled : w'.filled = w.filled)
    (hframes : w'.resolver.frames = w.resolver.frames)
    (hseparate : Separate known reserved w'.resolver w.filled)
    (hkept : ∀ p, p ≠ path → w'.resolver.edits.lookup p = w.resolver.edits.lookup p)
    (hedits : ∀ p ∈ w'.resolver.edits.map Prod.fst, p = path ∨ p ∈ w.resolver.edits.map Prod.fst)
    (hfree : ∀ n, n ∈ w'.resolver.free ↔ n ∈ w.resolver.free ∨ w.referent name = .free n)
    (hbound : ∀ {s n}, w.referent name = .bound s n →
      w.filled.Gives s n ((w'.resolver.edits.lookup path).getD n))
    (hunbound : ∀ {n}, w.referent name = .free n → w'.resolver.edits.lookup path = none) :
    w'.Sound known reserved rest := by
  have hfresh := h.mention_fresh.1
  have hold : ∀ {p ref}, (p, ref) ∈ w.referents → p ≠ path := by
    rintro p ref hmem rfl
    exact hfresh (List.mem_map_of_mem hmem)
  refine ⟨by rw [hfilled]; exact hseparate, by rw [hsites, hframes]; exact h.open_length,
    by rw [hsites, hframes, hfilled]; exact h.open_filled, ?_, ?_, ?_, ?_, h.tail_plain, ?_, ?_,
    h.tail_known⟩
  · intro p s n hp
    rw [hfilled]
    rw [hrefs] at hp
    rcases List.mem_append.1 hp with hp | hp
    · rw [hkept p (hold hp)]
      exact h.bound_spelled hp
    · obtain ⟨rfl, href⟩ := Prod.mk.injEq .. ▸ List.mem_singleton.1 hp
      exact hbound href.symm
  · intro p n hp
    rw [hrefs] at hp
    rcases List.mem_append.1 hp with hp | hp
    · rw [hkept p (hold hp)]
      exact ⟨(h.free_spelled hp).1, (hfree n).2 (Or.inl (h.free_spelled hp).2)⟩
    · obtain ⟨rfl, href⟩ := Prod.mk.injEq .. ▸ List.mem_singleton.1 hp
      exact ⟨hunbound href.symm, (hfree n).2 (Or.inr href.symm)⟩
  · intro n hn
    rw [hrefs]
    rcases (hfree n).1 hn with hn | href
    · obtain ⟨p, hp⟩ := h.free_mentioned n hn
      exact ⟨p, List.mem_append_left _ hp⟩
    · exact ⟨path, List.mem_append_right _ (by rw [href]; exact List.mem_singleton_self _)⟩
  · intro p hp
    rw [hrefs, List.map_append]
    rcases hedits p hp with rfl | hp
    · exact List.mem_append_right _ (List.mem_singleton_self _)
    · exact List.mem_append_left _ (h.edits_met p hp)
  · rw [hfilled]
    exact h.scopes_nodup
  · have hpaths := h.paths_nodup
    rw [mentionPaths_mention] at hpaths
    rw [hrefs, List.map_append, List.append_assoc]
    exact hpaths

theorem step_mention {path : Path} {name : String}
    (h : w.Sound known reserved (.mention path name :: rest))
    (hstep : w.step (.mention path name) = .ok w') : w'.Sound known reserved rest := by
  obtain ⟨hres, hnote⟩ := step_ok hstep
  have hnone := h.mention_fresh.2
  have hrefs : w'.referents = w.referents ++ [(path, w.referent name)] := by rw [hnote]; rfl
  have hsites : w'.sites = w.sites := by rw [hnote]; rfl
  have hfilled : w'.filled = w.filled := by rw [hnote]; rfl
  rcases w.referent_cases name h.open_length with
    ⟨href, hlookup⟩ | ⟨scope, frame, new, href, hopen, hfind, hlookup⟩
  · -- the name is free: it is noted as such, and no spelling changes
    rw [Resolver.step_mention_free path hlookup] at hres
    have hnext := (Except.ok.inj hres).symm
    refine h.mentioned hrefs hsites hfilled (by rw [hnext])
      (h.separate.congr (by rw [hnext]) (by rw [hnext]) (by rw [hnext])) ?_ ?_ ?_ ?_ ?_
    · intro p _
      rw [hnext]
    · intro p hp
      rw [hnext] at hp
      exact Or.inr hp
    · intro n
      rw [hnext, href, Referent.free.injEq]
      by_cases hmem : name ∈ w.resolver.free
      · rw [if_pos (List.contains_iff_mem.2 hmem)]
        exact ⟨Or.inl, fun hn => hn.elim id (fun heq => heq ▸ hmem)⟩
      · rw [if_neg (fun hc => hmem (List.contains_iff_mem.1 hc)), List.mem_cons, or_comm, eq_comm]
    · intro s n hbound
      rw [href] at hbound
      exact absurd hbound (by simp)
    · intro n _
      rw [hnext]
      exact hnone
  · -- the name is bound: it is spelled as the frame says
    have hgives : ∀ {s n}, w.referent name = .bound s n → w.filled.Gives s n new := by
      intro s n hbound
      rw [href, Referent.bound.injEq] at hbound
      obtain ⟨rfl, rfl⟩ := hbound
      exact ⟨frame, h.open_filled _ hopen, hfind⟩
    have hnotfree : ∀ {n}, w.referent name ≠ .free n := by
      intro n
      rw [href]
      exact Referent.noConfusion
    rw [Resolver.step_mention_bound path hlookup] at hres
    have hnext := (Except.ok.inj hres).symm
    by_cases hnew : new ≠ name ∧ ¬ w.resolver.dryRun
    · rw [if_pos hnew] at hnext
      refine h.mentioned hrefs hsites hfilled (by rw [hnext])
        (h.separate.congr (by rw [hnext]) (by rw [hnext]) (by rw [hnext])) ?_ ?_ ?_ ?_ ?_
      · intro p hp
        rw [hnext]
        exact lookup_cons_of_ne hp
      · intro p hp
        rw [hnext] at hp
        exact List.mem_cons.1 hp
      · intro n
        rw [hnext]
        exact ⟨Or.inl, fun hn => hn.elim id (fun hf => absurd hf hnotfree)⟩
      · intro s n hbound
        rw [hnext]
        simpa using hgives hbound
      · exact fun hf => absurd hf hnotfree
    · rw [if_neg hnew] at hnext
      have hsame : new = name := by
        rw [h.separate.real] at hnew
        simpa using hnew
      refine h.mentioned hrefs hsites hfilled (by rw [hnext]) (by rw [hnext]; exact h.separate)
        ?_ ?_ ?_ ?_ ?_
      · intro p _
        rw [hnext]
      · intro p hp
        rw [hnext] at hp
        exact Or.inr hp
      · intro n
        rw [hnext]
        exact ⟨Or.inl, fun hn => hn.elim id (fun hf => absurd hf hnotfree)⟩
      · intro s n hbound
        have hname : n = name := by
          rw [href, Referent.bound.injEq] at hbound
          exact hbound.2.symm
        rw [hnext, hnone, Option.getD_none, hname]
        have hg := hgives hbound
        rwa [hname, hsame] at hg
      · exact fun hf => absurd hf hnotfree

/-- **One event** of a real run keeps the invariant. -/
theorem step {event : Event} (h : w.Sound known reserved (event :: rest))
    (hstep : w.step event = .ok w') : w'.Sound known reserved rest := by
  cases event with
  | declare names => exact absurd (h.plain _ (List.mem_cons_self ..)) (by simp [Event.isPlain])
  | enter scope names => exact h.step_enter hstep
  | leave => exact h.step_leave hstep
  | mention path name => exact h.step_mention hstep
  | broken fault => exact absurd (h.plain _ (List.mem_cons_self ..)) (by simp [Event.isPlain])

/-- **Every run** keeps it. -/
theorem follow {done : List Event} (h : w.Sound known reserved (done ++ rest))
    (hrun : w.follow done = .ok w') : w'.Sound known reserved rest := by
  induction done generalizing w with
  | nil => rw [← Except.ok.inj hrun]; exact h
  | cons event done ih =>
      obtain ⟨next, hstep, hrun⟩ := Walk.follow_cons_ok hrun
      exact ih (h.step hstep) hrun

end Walk.Sound
end NameRecovery.Scope
