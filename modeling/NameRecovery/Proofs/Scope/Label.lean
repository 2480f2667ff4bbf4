import NameRecovery.Proofs.Scope.Fresh
import NameRecovery.Proofs.Scope.Renaming

/-!
# Programs with labels for names

Give every occurrence of a program a name of its own, its label.  The program itself,
and every respelling of it, is a renaming of the labelled program; so its events are
those of the labelled program with the labels replaced.  The labels that a scope
declares tell which occurrences declare for it.

* `Tree.labelled` — the program with labels for names;
* `events_respell` — the events of every respelling come from it;
* `Nested.declared_ahead` — what a scope declares is mentioned after it is entered.
-/

namespace NameRecovery

namespace Tree

/-- The label of the occurrence at a path: its place among all occurrences. -/
def label (t : Tree) (path : Path) : String :=
  Scope.numbered "" ((t.occurrences.map Prod.fst).idxOf path)

/-- The tree with the label of each occurrence for its name. -/
def labelled (t : Tree) : Tree :=
  t.respell fun path _ => t.label path

/-- The spelling that a label stands for. -/
def spelledAs (t : Tree) (spell : Spelling) (name : String) : String :=
  match t.occurrences.find? fun o => t.label o.1 == name with
  | some o => spell o.1 o.2
  | none => name

theorem label_inj {t : Tree} {p q : Path} (hp : p ∈ t.occurrences.map Prod.fst)
    (h : t.label p = t.label q) : p = q :=
  (List.idxOf_inj hp).1 (Scope.numbered_injective "" h)

theorem spelledAs_label {t : Tree} (h : t.isFormed = true) (spell : Spelling)
    {o : Path × String} (ho : o ∈ t.occurrences) :
    t.spelledAs spell (t.label o.1) = spell o.1 o.2 := by
  rw [spelledAs]
  cases hfind : t.occurrences.find? fun o' => t.label o'.1 == t.label o.1 with
  | none =>
      have hnone := List.find?_eq_none.1 hfind o ho
      simp at hnone
  | some o' =>
      have hmem := List.mem_of_find?_eq_some hfind
      have hlabel := List.find?_some hfind
      have hpath := label_inj (List.mem_map_of_mem hmem) (beq_iff_eq.1 hlabel)
      rw [List.inj_on_of_nodup_map (occurrences_paths_nodup h) hmem ho hpath]

/-- Every respelling of a tree is a renaming of the labelled tree. -/
theorem rename_labelled {t : Tree} (h : t.isFormed = true) (spell : Spelling) :
    t.labelled.renamed (t.spelledAs spell) = t.respell spell := by
  rw [labelled, renamed, respell_respell]
  exact respell_congr h fun o ho => spelledAs_label h spell ho

theorem occurrences_labelled {t : Tree} (h : t.isFormed = true) :
    t.labelled.occurrences = t.occurrences.map fun o => (o.1, t.label o.1) :=
  occurrences_respell h

end Tree

namespace Scope

open NameRecovery.Tree

theorem isFormed_of_isProgram {t : Tree} (h : t.isProgram = true) : t.isFormed = true := by
  rw [isProgram, Bool.and_eq_true] at h
  exact h.2

/-- The events of a respelled program are those of the labelled one, respelled. -/
theorem events_respell {t : Tree} (h : t.isProgram = true) (spell : Spelling) :
    events (t.respell spell) = (events t.labelled).map (Event.rename (t.spelledAs spell)) := by
  rw [← rename_labelled (isFormed_of_isProgram h) spell]
  exact events_rename (isProgram_respell h) _

theorem events_labelled {t : Tree} (h : t.isProgram = true) :
    events t = (events t.labelled).map (Event.rename (t.spelledAs fun _ name => name)) := by
  rw [← events_respell h, respell_eq_self (isFormed_of_isProgram h) fun _ _ => rfl]

/-! ## What lies ahead -/

/-- What a scope declares is mentioned after it is entered. -/
theorem Nested.declared_ahead {events : List Event} (h : Nested events) :
    ∀ {done rest : List Event} {scope : Path} {names : List String},
      events = done ++ .enter scope names :: rest → ∀ n ∈ names, n ∈ mentionNames rest := by
  have hmono : ∀ {first rest : List Event} {n : String},
      n ∈ mentionNames first → n ∈ mentionNames (first ++ rest) := by
    intro first rest n hn
    rw [mentionNames, List.filterMap_append]
    exact List.mem_append_left _ hn
  induction h with
  | nil => intro done rest scope names heq; simp at heq
  | mention path name =>
      intro done rest scope names heq
      cases done with
      | nil => simp at heq
      | cons e done => simp at heq
  | @scope site names' body _ hnames ih =>
      intro done rest scope names heq n hn
      cases done with
      | nil =>
          obtain ⟨hscope, rfl⟩ := List.cons.inj heq
          obtain ⟨-, rfl⟩ := Event.enter.inj hscope
          exact hmono (hnames n hn)
      | cons e done =>
          obtain ⟨-, heq⟩ := List.cons.inj heq
          rcases List.append_eq_append_iff.1 heq with ⟨more, -, hrest⟩ | ⟨more, hbody, hrest⟩
          · cases more with
            | nil => simp at hrest
            | cons _ _ => simp at hrest
          · cases more with
            | nil => simp at hrest
            | cons e' more =>
                obtain ⟨rfl, rfl⟩ := List.cons.inj hrest
                exact hmono (ih hbody n hn)
  | @append first rest' _ _ ih₁ ih₂ =>
      intro done rest scope names heq n hn
      rcases List.append_eq_append_iff.1 heq with ⟨more, rfl, hrest⟩ | ⟨more, rfl, hrest⟩
      · exact ih₂ hrest n hn
      · cases more with
        | nil => exact @ih₂ [] rest scope names hrest.symm n hn
        | cons e more =>
            obtain ⟨rfl, rfl⟩ := List.cons.inj hrest
            exact hmono (ih₁ rfl n hn)

theorem rename_congr {f g : String → String} {event : Event}
    (h : ∀ n ∈ event.names, f n = g n) : event.rename f = event.rename g := by
  cases event with
  | declare names => exact congrArg Event.declare (List.map_congr_left h)
  | enter scope names => exact congrArg (Event.enter scope) (List.map_congr_left h)
  | mention path name => exact congrArg (Event.mention path) (h name (List.mem_singleton.2 rfl))
  | leave => rfl
  | broken _ => rfl

theorem mentions_rename (f : String → String) (events : List Event) :
    mentions (events.map (Event.rename f)) = (mentions events).map fun o => (o.1, f o.2) := by
  rw [mentions, mentions, List.filterMap_map, List.map_filterMap]
  refine List.filterMap_congr fun e _ => ?_
  cases e <;> rfl

/-- **The events ahead stay the same** when mentions that lie behind are edited: what a
scope declares is read off places that the walk has not reached when it enters it. -/
theorem events_edit_ahead {t : Tree} (h : t.isProgram = true) {edits : Edits}
    (hedits : ∀ e ∈ edits, e.1 ∈ t.occurrences.map Prod.fst) {first : Event}
    {done rest : List Event} (hsplit : events t = first :: done ++ rest)
    (hrest : ∀ p ∈ mentionPaths rest, edits.lookup p = none) :
    ∃ done', done'.length = (first :: done).length ∧ events (t.edit edits) = done' ++ rest := by
  have hformed := isFormed_of_isProgram h
  obtain ⟨names, body, hregular⟩ := regular_events (t := t.labelled) (isProgram_respell h)
  rw [events_labelled h] at hsplit
  obtain ⟨labelsDone, labels, hlabels, hdone, hlabelsRest⟩ := List.map_eq_append_iff.1 hsplit
  refine ⟨labelsDone.map (Event.rename
    (t.spelledAs fun path name => (edits.lookup path).getD name)), ?_, ?_⟩
  · rw [← hdone, List.length_map, List.length_map]
  rw [edit_eq_respell hformed hedits, events_respell h, hlabels, List.map_append, ← hlabelsRest]
  refine congrArg _ (List.map_congr_left fun e he => rename_congr fun l hl => ?_)
  -- A label among the events ahead is mentioned there.
  have hahead : l ∈ mentionNames labels := by
    obtain ⟨event, labelsDone', hcons⟩ : ∃ event rest, labelsDone = event :: rest := by
      cases labelsDone with
      | nil => cases hdone
      | cons event rest => exact ⟨event, rest, rfl⟩
    have hbody : body = labelsDone' ++ labels := by
      have hevents := hregular.events_eq.symm.trans hlabels
      rw [hcons] at hevents
      exact (List.cons.inj hevents).2
    obtain ⟨before, after, hevent⟩ := List.append_of_mem he
    cases e with
    | declare _ =>
        exact absurd (hregular.nested.isPlain _ (by rw [hbody]; exact List.mem_append_right _ he))
          (by simp [Event.isPlain])
    | enter scope names' =>
        rw [hevent, ← List.append_assoc] at hbody
        have hmention := hregular.nested.declared_ahead hbody l hl
        rw [hevent, mentionNames, List.filterMap_append]
        exact List.mem_append_right _ hmention
    | mention path name =>
        obtain rfl := List.mem_singleton.1 hl
        exact List.mem_filterMap.2 ⟨_, he, rfl⟩
    | leave | broken _ => exact absurd hl List.not_mem_nil
  -- It is the label of an occurrence that is not edited.
  rw [mentionNames_eq] at hahead
  obtain ⟨o, ho, rfl⟩ := List.mem_map.1 hahead
  have hocc : o ∈ t.labelled.occurrences := by
    rw [← hregular.mentions_eq]
    have hsub : o ∈ mentions (events t.labelled) := by
      rw [hlabels, mentions_append]
      exact List.mem_append_right _ ho
    rw [hregular.events_eq] at hsub
    exact hsub
  rw [occurrences_labelled hformed] at hocc
  obtain ⟨o', ho', rfl⟩ := List.mem_map.1 hocc
  rw [spelledAs_label hformed _ ho', spelledAs_label hformed _ ho']
  have hpath : o'.1 ∈ mentionPaths rest := by
    rw [mentionPaths_eq, ← hlabelsRest, mentions_rename, List.map_map]
    exact List.mem_map.2 ⟨_, ho, rfl⟩
  rw [hrest _ hpath]
  rfl

end Scope
end NameRecovery
