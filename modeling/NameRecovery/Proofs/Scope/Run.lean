import NameRecovery.Proofs.Scope.Lockstep
import NameRecovery.Proofs.Scope.Renaming

/-!
# Both runs through a program

A program is run through twice: dry, to find its free names, and for real, with these
reserved.  On a program neither run fails, both see the same, and the names the real
one gives are separate.

* `walkThrough_program` — a run through a program ends;
* `Runs` — the two runs and what they say about each other;
* `runs_program` — every program has such runs.
-/

namespace NameRecovery

namespace Tree

/-! ## The identifiers of a tree -/

theorem namesOfIdentifiers_ok {visits : List Visit}
    (h : ∀ visit ∈ visits, visit.node.isFormed = true) :
    ∃ known, namesOfIdentifiers visits = .ok known ∧
      ∀ o ∈ visits.filterMap Visit.occurrence?, o.2 ∈ known := by
  induction visits with
  | nil => exact ⟨[], rfl, fun o ho => absurd ho List.not_mem_nil⟩
  | cons visit rest ih =>
      obtain ⟨known, hknown, hrest⟩ := ih fun v hv => h v (List.mem_cons_of_mem _ hv)
      rw [namesOfIdentifiers]
      cases hidentifier : visit.isIdentifier with
      | false =>
          refine ⟨known, hknown, fun o ho => hrest o ?_⟩
          have hnone : visit.occurrence? = none := by simp [Visit.occurrence?, hidentifier]
          rwa [List.filterMap_cons, hnone] at ho
      | true =>
          obtain ⟨name, hname⟩ :=
            node_of_isIdentifier (h visit List.mem_cons_self) hidentifier
          refine ⟨name :: known, ?_, fun o ho => ?_⟩
          · rw [hname, hknown]
            rfl
          · rw [List.filterMap_cons] at ho
            cases hocc : visit.occurrence? with
            | none => rw [hocc] at ho; exact List.mem_cons_of_mem _ (hrest o ho)
            | some o' =>
                rw [hocc] at ho
                rcases List.mem_cons.1 ho with rfl | ho
                · rw [Visit.occurrence?, hname] at hocc
                  split at hocc
                  · obtain ⟨n, hn, rfl⟩ := Option.map_eq_some_iff.1 hocc
                    rw [← Option.some.inj (show some name = some n from hn)]
                    exact List.mem_cons_self
                  · cases hocc
                · exact List.mem_cons_of_mem _ (hrest o ho)

/-- The spellings of the identifiers of a formed tree can be read, and those of its
occurrences are among them. -/
theorem identifierNames_ok {t : Tree} (h : t.isFormed = true) (hnode : t.isNode = true) :
    ∃ known, t.identifierNames = .ok known ∧ ∀ o ∈ t.occurrences, o.2 ∈ known := by
  obtain ⟨known, hknown, hocc⟩ := namesOfIdentifiers_ok (isFormed_visit h ⟨none, none, []⟩)
  refine ⟨known, ?_, hocc⟩
  cases t with
  | node kind fields =>
      rw [identifierNames, walk_node]
      exact hknown
  | _ => cases hnode

end Tree

namespace Scope

open NameRecovery.Tree

/-! ## The beginning of a run -/

/-- A run in which the names of the program have been declared. -/
def Walk.opened (known reserved : List String) (dryRun : Bool) (names : List String) : Walk :=
  let (r, frame) := (Resolver.start known reserved dryRun).declareAll [] names
  { resolver := { r with frames := [frame] }, filled := [([], frame)] }

theorem Walk.step_declare (known reserved : List String) (dryRun : Bool) (names : List String) :
    Walk.step { resolver := .start known reserved dryRun } (.declare names) =
      .ok (.opened known reserved dryRun names) := by
  have hindex : (Resolver.start known reserved dryRun).frameIndex? 0 = some 0 := rfl
  have hempty : (Resolver.start known reserved dryRun).frames.getD 0 [] = [] := rfl
  obtain ⟨counters, taken, renames, hframe⟩ :=
    (Resolver.start known reserved dryRun).declareAll_frame names []
  have hstep : (Resolver.start known reserved dryRun).step (.declare names) =
      .ok (Walk.opened known reserved dryRun names).resolver := by
    rw [Resolver.step, Resolver.declareAt, hindex]
    simp only [Walk.opened, hempty, hframe]
    rfl
  rw [Walk.step_of_resolver hstep]
  rfl

section Opened

variable (known reserved : List String) (dryRun : Bool) (names : List String)

theorem Walk.opened_tracks : (Walk.opened known reserved dryRun names).Tracks [([], names)] where
  sites := rfl
  frames := .cons (Walk.Tracks.declared _ names) .nil

theorem Walk.opened_free : (Walk.opened known reserved dryRun names).resolver.free = [] := by
  obtain ⟨counters, taken, renames, hframe⟩ :=
    (Resolver.start known reserved dryRun).declareAll_frame names []
  simp only [Walk.opened, hframe]
  rfl

theorem Walk.opened_edits : (Walk.opened known reserved dryRun names).resolver.edits = [] := by
  obtain ⟨counters, taken, renames, hframe⟩ :=
    (Resolver.start known reserved dryRun).declareAll_frame names []
  simp only [Walk.opened, hframe]
  rfl

theorem Walk.opened_alike (reserved' : List String) (dryRun' : Bool) :
    (Walk.opened known reserved dryRun names).Alike
      (Walk.opened known reserved' dryRun' names) where
  sites := rfl
  frames := congrArg (fun keys => [keys]) (Resolver.keys_declareAll names rfl)
  filled := congrArg (fun keys => [([], keys)]) (Resolver.keys_declareAll names rfl)
  referents := rfl
  free := (Walk.opened_free ..).trans (Walk.opened_free ..).symm

end Opened

/-- A run through a program ends. -/
theorem walkThrough_program {t : Tree} {names known : List String} {body : List Event}
    (h : Regular t names body) (hknown : t.identifierNames = .ok known) (reserved : List String)
    (dryRun : Bool) :
    ∃ w, (Walk.opened known reserved dryRun names).follow body = .ok w ∧
      walkThrough t reserved dryRun = .ok w := by
  obtain ⟨w, hw, -⟩ := h.nested.follow (Walk.opened known reserved dryRun names)
  refine ⟨w, hw, ?_⟩
  rw [walkThrough, resolverFor, hknown, h.events_eq]
  exact (Walk.follow_cons body (Walk.step_declare known reserved dryRun names)).trans hw

/-! ## The real run -/

/-- All names in nested events are mentioned there. -/
theorem Nested.names_mentioned {events : List Event} (h : Nested events) :
    ∀ e ∈ events, ∀ n ∈ e.names, n ∈ mentionNames events := by
  induction h with
  | nil => intro e he; exact absurd he List.not_mem_nil
  | mention path name =>
      intro e he n hn
      rw [List.mem_singleton.1 he] at hn
      exact hn
  | @scope site names body _ hnames ih =>
      have hbody : mentionNames (.enter site names :: body ++ [.leave]) = mentionNames body := by
        rw [mentionNames_eq, List.cons_append, mentions_enter, mentions_append, mentions_leave,
          List.append_nil, ← mentionNames_eq]
      intro e he n hn
      rw [hbody]
      rcases List.mem_cons.1 he with rfl | he
      · exact hnames n hn
      · rcases List.mem_append.1 he with he | he
        · exact ih e he n hn
        · rw [List.mem_singleton.1 he] at hn
          exact absurd hn List.not_mem_nil
  | @append first rest _ _ ih₁ ih₂ =>
      have hboth : mentionNames (first ++ rest) = mentionNames first ++ mentionNames rest :=
        List.filterMap_append
      intro e he n hn
      rw [hboth]
      rcases List.mem_append.1 he with he | he
      · exact List.mem_append_left _ (ih₁ e he n hn)
      · exact List.mem_append_right _ (ih₂ e he n hn)

theorem separate_start {known reserved : List String} (h : ∀ n ∈ reserved, n ∈ known) :
    Separate known reserved (.start known reserved false) [] where
  real := rfl
  reserved_known := h
  known_taken := fun _ hn => hn
  reserved_counted := fun n hn => by
    rw [Resolver.start, Table.has_ofList, List.any_map]
    exact List.any_eq_true.2 ⟨n, hn, by simp⟩
  distinct := by rintro _ _ _ _ _ ⟨_, hmem, -⟩; exact absurd hmem List.not_mem_nil
  spent := by rintro _ _ _ ⟨_, hmem, -⟩; exact absurd hmem List.not_mem_nil

/-- A real run through a program is sound from the start. -/
theorem Walk.opened_sound {t : Tree} {names known reserved : List String} {body : List Event}
    (h : Regular t names body) (hformed : t.isFormed = true)
    (hknown : ∀ o ∈ t.occurrences, o.2 ∈ known) (hreserved : ∀ n ∈ reserved, n ∈ known) :
    (Walk.opened known reserved false names).Sound known reserved body := by
  have hmentioned : ∀ n ∈ mentionNames body, n ∈ known := by
    intro n hn
    rw [mentionNames_eq, h.mentions_eq] at hn
    obtain ⟨o, ho, rfl⟩ := List.mem_map.1 hn
    exact hknown o ho
  have hseparate := (separate_start hreserved).declareAll []
    fun n hn => hmentioned n (h.names_mentioned n hn)
  refine
    { separate := hseparate.congr rfl rfl rfl
      open_length := rfl
      open_filled := fun scope hscope => hscope
      bound_spelled := fun hmem => absurd hmem List.not_mem_nil
      free_spelled := fun hmem => absurd hmem List.not_mem_nil
      free_mentioned := fun n hn => ?_
      edits_met := fun p hp => ?_
      plain := h.nested.isPlain
      scopes_nodup := h.scopes_nodup
      paths_nodup := ?_
      names_known := fun e he n hn => hmentioned n (h.nested.names_mentioned e he n hn) }
  · rw [Walk.opened_free] at hn
    exact absurd hn List.not_mem_nil
  · rw [Walk.opened_edits] at hp
    exact absurd hp List.not_mem_nil
  · have hpaths : mentionPaths body = t.occurrences.map Prod.fst := by
      rw [mentionPaths_eq, h.mentions_eq]
    exact hpaths ▸ occurrences_paths_nodup hformed

/-! ## Free names -/

/-- Note a free name, once. -/
def noteFree (free : List String) : Path × Referent → List String
  | (_, .free name) => if free.contains name then free else name :: free
  | (_, .bound _ _) => free

theorem mem_foldl_noteFree {referents : List (Path × Referent)} {free : List String} {n : String}
    (h : n ∈ referents.foldl noteFree free) : n ∈ free ∨ ∃ p, (p, .free n) ∈ referents := by
  induction referents generalizing free with
  | nil => exact .inl h
  | cons m rest ih =>
      rw [List.foldl_cons] at h
      rcases ih h with hn | ⟨p, hp⟩
      · obtain ⟨path, referent⟩ := m
        cases referent with
        | bound s n' => exact .inl hn
        | free n' =>
            rw [noteFree] at hn
            split at hn
            · exact .inl hn
            · rcases List.mem_cons.1 hn with rfl | hn
              · exact .inr ⟨path, List.mem_cons_self⟩
              · exact .inl hn
      · exact .inr ⟨p, List.mem_cons_of_mem _ hp⟩

/-- The free names of a walk are those of its free mentions. -/
structure Walk.NotesFree (w : Walk) : Prop where
  /-- Every open frame belongs to a node. -/
  length : w.sites.length = w.resolver.frames.length
  /-- The free names are noted in the order of their first free mentions. -/
  free : w.resolver.free = w.referents.foldl noteFree []

namespace Walk.NotesFree

variable {w w' : Walk}

theorem step_mention (h : w.NotesFree) {path : Path} {name : String}
    (hstep : w.step (.mention path name) = .ok w') : w'.NotesFree := by
  obtain ⟨hres, hnote⟩ := step_ok hstep
  have hsites : w'.sites = w.sites := by rw [hnote]; rfl
  have hreferents : w'.referents = w.referents ++ [(path, w.referent name)] := by rw [hnote]; rfl
  obtain ⟨next, hnext, hframes⟩ := w.resolver.step_mention_frames path name
  rw [Except.ok.inj (hnext.symm.trans hres)] at hframes
  refine ⟨by rw [hsites, hframes, h.length], ?_⟩
  rw [hreferents, List.foldl_append, List.foldl_cons, List.foldl_nil, ← h.free]
  rcases w.referent_cases name h.length with ⟨href, hlookup⟩ | ⟨s, f, new, href, -, -, hlookup⟩
  · rw [Resolver.step_mention_free path hlookup] at hres
    rw [href, ← Except.ok.inj hres]
    rfl
  · rw [Resolver.step_mention_bound path hlookup] at hres
    rw [href, ← Except.ok.inj hres]
    split <;> rfl

theorem step (h : w.NotesFree) {event : Event} (hplain : event.isPlain = true)
    (hstep : w.step event = .ok w') : w'.NotesFree := by
  cases event with
  | declare _ | broken _ => cases hplain
  | mention path name => exact h.step_mention hstep
  | enter scope names =>
      obtain ⟨hres, hnote⟩ := step_ok hstep
      rw [Resolver.step_enter] at hres
      have hnext := (Except.ok.inj hres).symm
      obtain ⟨counters, taken, renames, hframe⟩ := w.resolver.declareAll_frame names []
      rw [hnext] at hnote
      rw [hnote]
      refine ⟨?_, ?_⟩
      · simp only [note, List.length_cons, h.length]
      · simp only [note, hframe, h.free]
  | leave =>
      obtain ⟨hres, hnote⟩ := step_ok hstep
      obtain ⟨frame, frames, hframes, hnext⟩ := Resolver.step_leave hres
      have hlength := h.length
      rw [hframes, List.length_cons] at hlength
      rw [hnext] at hnote
      rw [hnote]
      refine ⟨?_, h.free⟩
      simp only [note, List.length_tail, hlength, Nat.add_sub_cancel]

theorem follow {events : List Event} (h : w.NotesFree) (hplain : ∀ e ∈ events, e.isPlain = true)
    (hrun : w.follow events = .ok w') : w'.NotesFree := by
  induction events generalizing w with
  | nil => rw [← Except.ok.inj hrun]; exact h
  | cons event rest ih =>
      obtain ⟨next, hstep, hrun⟩ := Walk.follow_cons_ok hrun
      exact ih (h.step (hplain _ List.mem_cons_self) hstep)
        (fun e he => hplain e (List.mem_cons_of_mem _ he)) hrun

end Walk.NotesFree

theorem Walk.opened_notesFree (known reserved : List String) (dryRun : Bool)
    (names : List String) : (Walk.opened known reserved dryRun names).NotesFree where
  length := rfl
  free := Walk.opened_free ..

/-! ## Both runs -/

theorem run_of_walk {t : Tree} (h : t.isProgram = true) {reserved : List String} {dryRun : Bool}
    {w : Walk} (hw : walkThrough t reserved dryRun = .ok w) :
    ∃ r, resolverFor t reserved dryRun = .ok r ∧
      r.run t = .ok ({ w.resolver with edits := [] }, t.edit w.resolver.edits) := by
  obtain ⟨fields, rfl, -⟩ := exists_fields_of_isProgram h
  rw [walkThrough] at hw
  cases hr : resolverFor (.node "Program" fields) reserved dryRun with
  | error e => rw [hr] at hw; cases hw
  | ok r =>
      rw [hr] at hw
      have hfollow := Walk.follow_resolver { resolver := r } (events (.node "Program" fields))
      rw [show Walk.follow { resolver := r } (events (.node "Program" fields)) = .ok w from hw]
        at hfollow
      refine ⟨r, rfl, ?_⟩
      have hneed : (Tree.node "Program" fields).need "type" = .ok (.text "Program") := rfl
      rw [Resolver.run, hneed, ← hfollow]
      rfl

/-- The runs through a program, and what they say about each other. -/
structure Runs (t : Tree) (res : Resolution) (dry real : Walk) : Prop where
  /-- The program is resolved. -/
  resolved : resolve t = .ok res
  /-- The dry run. -/
  dry_walk : walkThrough t [] true = .ok dry
  /-- The real run. -/
  real_walk : walkThrough t res.globals false = .ok real
  /-- The real run makes the edits. -/
  tree_eq : res.tree = t.edit real.resolver.edits
  /-- What is left of it is the resolver. -/
  resolver_eq : res.resolver = { real.resolver with edits := [] }
  /-- The reserved names are the free names of the program. -/
  free_names : freeNames t = .ok res.globals
  /-- They are those the dry run found free. -/
  globals_eq : res.globals = sorted dry.resolver.free
  /-- Both runs see the same. -/
  alike : dry.Alike real
  /-- The real run gives separate names. -/
  sound : ∃ known, t.identifierNames = .ok known ∧ real.Sound known res.globals []
  /-- The free names are those of the free mentions. -/
  notes_free : dry.NotesFree
  /-- The mentions mean what the scopes open around them say. -/
  referents_eq : ∃ names body, Regular t names body ∧
    dry.referents = (contexts [([], names)] body).map fun m => (m.path, m.referent)

theorem mem_sorted {names : List String} {n : String} : n ∈ sorted names ↔ n ∈ names :=
  List.mem_mergeSort

/-- Every program is run through. -/
theorem runs_program {t : Tree} (h : t.isProgram = true) : ∃ res dry real, Runs t res dry real := by
  obtain ⟨fields, rfl, hformed⟩ := exists_fields_of_isProgram h
  obtain ⟨names, body, hregular⟩ := regular_events h
  obtain ⟨known, hknown, hocc⟩ := identifierNames_ok hformed rfl
  have hplain := hregular.nested.isPlain
  obtain ⟨dry, hdry, hdryWalk⟩ := walkThrough_program hregular hknown [] true
  obtain ⟨r, hr, hrun⟩ := run_of_walk h hdryWalk
  have hfree : freeNames (.node "Program" fields) = .ok (sorted dry.resolver.free) := by
    rw [freeNames, hr]
    simp only [bind, Except.bind, hrun]
    rfl
  obtain ⟨real, hreal, hrealWalk⟩ :=
    walkThrough_program hregular hknown (sorted dry.resolver.free) false
  obtain ⟨r', hr', hrun'⟩ := run_of_walk h hrealWalk
  have hresolve : resolve (.node "Program" fields) =
      .ok ⟨(Tree.node "Program" fields).edit real.resolver.edits, sorted dry.resolver.free,
        { real.resolver with edits := [] }⟩ := by
    rw [resolve, hfree]
    simp only [bind, Except.bind, hr', hrun']
    rfl
  have halike := (Walk.opened_alike known [] true names (sorted dry.resolver.free) false).follow
    hplain hdry hreal
  have hreferents := (Walk.opened_tracks known [] true names).follow hplain hdry
  have hnotes := (Walk.opened_notesFree known [] true names).follow hplain hdry
  have hreserved : ∀ n ∈ sorted dry.resolver.free, n ∈ known := by
    intro n hn
    rw [mem_sorted, hnotes.free] at hn
    rcases mem_foldl_noteFree hn with hn | ⟨p, hp⟩
    · exact absurd hn List.not_mem_nil
    · rw [hreferents] at hp
      obtain ⟨m, hm, heq⟩ := List.mem_map.1 hp
      have hname : m.name = n := by
        have hmeaning : (meaning m.stack m.name).name = n :=
          congrArg (fun r => Referent.name r.2) heq
        rwa [meaning_name] at hmeaning
      have hmention : (m.path, m.name) ∈ mentions body := by
        rw [← contexts_mentions [([], names)]]
        exact List.mem_map.2 ⟨m, hm, rfl⟩
      rw [hregular.mentions_eq] at hmention
      exact hname ▸ hocc _ hmention
  have hsound := Walk.opened_sound hregular hformed hocc hreserved
  rw [← List.append_nil body] at hsound
  have hend := hsound.follow hreal
  exact ⟨_, dry, real, hresolve, hdryWalk, hrealWalk, rfl, rfl, hfree, rfl, halike, ⟨known, hknown, hend⟩,
    hnotes, names, body, hregular, hreferents⟩

end Scope
end NameRecovery
