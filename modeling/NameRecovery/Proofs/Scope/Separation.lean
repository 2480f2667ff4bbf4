import NameRecovery.Grammar.Program
import NameRecovery.Proofs.Scope.Label
import NameRecovery.Proofs.Scope.Run

/-!
# Resolving a program separates its bindings

Before a program is resolved, occurrences of one name may mean different bindings.
After it, two occurrences have the same name exactly if they mean the same binding, or
the same free name.

* `Runs.spelled` — how an occurrence is spelled after the run;
* `resolve_separates_bindings` — the separation, and what both runs agree on.
-/

namespace NameRecovery.Scope

open NameRecovery.Tree

variable {t : Tree} {res : Resolution} {dry real : Walk}

namespace Runs

/-- The dry run decides what every occurrence means. -/
theorem referents_occurrences (h : Runs t res dry real) :
    (dry.referents.map fun m => (m.1, m.2.name)) = t.occurrences := by
  obtain ⟨names, body, hregular, hreferents⟩ := h.referents_eq
  rw [hreferents, List.map_map, ← hregular.mentions_eq, ← contexts_mentions [([], names)]]
  refine List.map_congr_left fun m _ => ?_
  simp only [Function.comp, Mention.referent, meaning_name]

theorem referents_paths (h : Runs t res dry real) :
    dry.referents.map Prod.fst = t.occurrences.map Prod.fst := by
  rw [← h.referents_occurrences, List.map_map]
  rfl

theorem edits_occurrences (h : Runs t res dry real) :
    ∀ e ∈ real.resolver.edits, e.1 ∈ t.occurrences.map Prod.fst := by
  obtain ⟨known, -, hsound⟩ := h.sound
  intro e he
  rw [← h.referents_paths, h.alike.referents]
  exact hsound.edits_met e.1 (List.mem_map_of_mem he)

/-- The resolved tree is the tree respelled as the real run says. -/
theorem tree_eq_respell (h : Runs t res dry real) (hformed : t.isFormed = true) :
    res.tree = t.respell fun path name => (real.resolver.edits.lookup path).getD name := by
  rw [h.tree_eq]
  exact edit_eq_respell hformed h.edits_occurrences

/-- An occurrence gets the name that its binding got; a free one keeps its name. -/
theorem spelled (h : Runs t res dry real) (hformed : t.isFormed = true) {o : Path × String}
    (ho : o ∈ res.tree.occurrences) {r : Referent} (hr : (o.1, r) ∈ dry.referents) :
    (∃ s n, r = .bound s n ∧ real.filled.Gives s n o.2) ∨
      (r = .free o.2 ∧ o.2 ∈ res.globals) := by
  obtain ⟨known, -, hsound⟩ := h.sound
  rw [h.tree_eq_respell hformed, occurrences_respell hformed] at ho
  obtain ⟨o', ho', rfl⟩ := List.mem_map.1 ho
  have hname : r.name = o'.2 := by
    have hmem : (o'.1, r.name) ∈ t.occurrences := by
      rw [← h.referents_occurrences]
      exact List.mem_map.2 ⟨_, hr, rfl⟩
    exact congrArg Prod.snd
      (List.inj_on_of_nodup_map (occurrences_paths_nodup hformed) hmem ho' rfl)
  rw [h.alike.referents] at hr
  cases r with
  | bound s n =>
      obtain rfl : n = o'.2 := hname
      exact .inl ⟨s, o'.2, rfl, hsound.bound_spelled hr⟩
  | free n =>
      obtain rfl : n = o'.2 := hname
      obtain ⟨hlookup, hfree⟩ := hsound.free_spelled hr
      have hkept : (real.resolver.edits.lookup o'.1).getD o'.2 = o'.2 := by rw [hlookup]; rfl
      refine .inr ⟨congrArg Referent.free hkept.symm, ?_⟩
      simp only [hkept]
      rw [h.globals_eq, mem_sorted, h.alike.free]
      exact hfree

/-- Two occurrences get the same name exactly if they mean the same. -/
theorem same_name_iff (h : Runs t res dry real) (hformed : t.isFormed = true)
    {o o' : Path × String} (ho : o ∈ res.tree.occurrences) (ho' : o' ∈ res.tree.occurrences)
    {r r' : Referent} (hr : (o.1, r) ∈ dry.referents) (hr' : (o'.1, r') ∈ dry.referents) :
    o.2 = o'.2 ↔ r = r' := by
  obtain ⟨known, -, hsound⟩ := h.sound
  have hnotReserved : ∀ {s n m}, real.filled.Gives s n m → m ∉ res.globals :=
    fun hgives => (hsound.separate.spent hgives).2.1
  rcases h.spelled hformed ho hr with ⟨s, n, rfl, hgives⟩ | ⟨rfl, hfree⟩ <;>
    rcases h.spelled hformed ho' hr' with ⟨s', n', rfl, hgives'⟩ | ⟨rfl, hfree'⟩
  · constructor
    · intro heq
      rw [← heq] at hgives'
      obtain ⟨rfl, rfl⟩ := hsound.separate.distinct hgives hgives'
      rfl
    · intro heq
      obtain ⟨rfl, rfl⟩ := Referent.bound.inj heq
      exact hsound.gives_unique hgives hgives'
  · refine ⟨fun heq => absurd hfree' (heq ▸ hnotReserved hgives), fun heq => ?_⟩
    cases heq
  · refine ⟨fun heq => absurd (heq ▸ hfree) (hnotReserved hgives'), fun heq => ?_⟩
    cases heq
  · constructor
    · intro heq
      rw [heq]
    · intro heq
      exact Referent.free.inj heq

end Runs

/-- The tree as the real run has rewritten it so far still has the events ahead that the
run is about to follow. -/
theorem follow_ahead {known reserved : List String} (h : t.isProgram = true)
    (hocc : ∀ o ∈ t.occurrences, o.2 ∈ known) (hreserved : ∀ n ∈ reserved, n ∈ known)
    {done rest : List Event} {r : Resolver} (hsplit : events t = done ++ rest)
    (hrun : (Resolver.start known reserved false).follow done = .ok r) :
    ∃ done', done'.length = done.length ∧ events (t.edit r.edits) = done' ++ rest := by
  obtain ⟨names, body, hregular⟩ := regular_events h
  cases done with
  | nil =>
      rw [← Except.ok.inj hrun]
      exact ⟨[], rfl, hsplit⟩
  | cons first done =>
      have hevents := hregular.events_eq.symm.trans hsplit
      obtain ⟨rfl, hbody⟩ := List.cons.inj hevents
      change body = done ++ rest at hbody
      obtain ⟨w, hw, rfl⟩ : ∃ w, (Walk.opened known reserved false names).follow done = .ok w ∧
          w.resolver = r := by
        have hfollow := Walk.follow_resolver { resolver := .start known reserved false }
          (.declare names :: done)
        rw [Walk.follow_cons done (Walk.step_declare ..), hrun] at hfollow
        cases hw : (Walk.opened known reserved false names).follow done with
        | error e => rw [hw] at hfollow; cases hfollow
        | ok w => rw [hw] at hfollow; exact ⟨w, rfl, Except.ok.inj hfollow⟩
      have hsound := Walk.opened_sound hregular (isFormed_of_isProgram h) hocc hreserved
      rw [hbody] at hsound
      have hmet := hsound.follow hw
      have hplain : ∀ e ∈ done, e.isPlain = true := fun e he =>
        hregular.nested.isPlain e (by rw [hbody]; exact List.mem_append_left _ he)
      have hpaths : w.referents.map Prod.fst = mentionPaths done := by
        rw [(Walk.opened_tracks known reserved false names).follow hplain hw, mentionPaths_eq,
          ← contexts_mentions [([], names)], List.map_map]
        simp [Walk.opened]
      refine events_edit_ahead h (fun e he => ?_) hsplit fun p hp => ?_
      · have hmem := hmet.edits_met e.1 (List.mem_map_of_mem he)
        rw [hpaths] at hmem
        rw [← hregular.mentions_eq, hbody, ← mentionPaths_eq, mentionPaths, List.filterMap_append]
        exact List.mem_append_left _ hmem
      · refine lookup_eq_none_of_not_mem fun hedit => ?_
        exact (List.nodup_append.1 hmet.paths_nodup).2.2 p (hmet.edits_met p hedit) p hp rfl

/-- A program `t` and its resolution, with the dry run that finds what every occurrence of
`t` means and the real run that gives the new names. -/
structure Separated (t : Tree) (res : Resolution) (dry real : Walk) : Prop where
  /-- Resolving the program succeeds. -/
  resolved : resolve t = .ok res
  /-- The dry run goes through the program with no names reserved. -/
  dry_walk : walkThrough t [] true = .ok dry
  /-- The real run goes through it with the free names reserved. -/
  real_walk : walkThrough t res.globals false = .ok real
  /-- The dry run finds for every occurrence a frame that has its name, or that it is
  free. -/
  found : (dry.referents.map fun m => (m.1, m.2.name)) = t.occurrences
  /-- The resolved tree has its occurrences at the same places. -/
  same_places : res.tree.occurrences.map Prod.fst = t.occurrences.map Prod.fst
  /-- Two occurrences have the same name after it if and only if they were found in the
  same frame under the same name, or free under the same name. -/
  same_name_iff : ∀ o ∈ res.tree.occurrences, ∀ o' ∈ res.tree.occurrences, ∀ r r',
    (o.1, r) ∈ dry.referents → (o'.1, r') ∈ dry.referents → (o.2 = o'.2 ↔ r = r')
  /-- The names in all frames ever filled are different from each other. -/
  names_distinct : ∀ s s' n n' m, real.filled.Gives s n m → real.filled.Gives s' n' m →
    s = s' ∧ n = n'
  /-- None of them is free. -/
  names_not_free : ∀ s n m, real.filled.Gives s n m → m ∉ dry.resolver.free
  /-- Both runs fill the same frames and find the same mentions and free names. -/
  alike : dry.Alike real
  /-- The tree as the real run has rewritten it so far has the events ahead that the run
  is about to follow. -/
  ahead : ∀ r₀, resolverFor t res.globals false = .ok r₀ → ∀ done rest r,
    events t = done ++ rest → r₀.follow done = .ok r →
      ∃ done', done'.length = done.length ∧ events (t.edit r.edits) = done' ++ rest

/-- **Resolving a program separates its bindings exactly**, whatever the program. -/
theorem resolve_separates_bindings (h : t.isProgram = true) :
    ∃ res dry real, Separated t res dry real := by
  obtain ⟨res, dry, real, hruns⟩ := runs_program h
  have hformed := isFormed_of_isProgram h
  obtain ⟨known, hknown, hsound⟩ := hruns.sound
  refine ⟨res, dry, real,
    { resolved := hruns.resolved
      dry_walk := hruns.dry_walk
      real_walk := hruns.real_walk
      found := hruns.referents_occurrences
      same_places := ?_
      same_name_iff := fun o ho o' ho' r r' hr hr' => hruns.same_name_iff hformed ho ho' hr hr'
      names_distinct := fun s s' n n' m hgives hgives' => hsound.separate.distinct hgives hgives'
      names_not_free := fun s n m hgives hfree => (hsound.separate.spent hgives).2.1 ?_
      alike := hruns.alike
      ahead := fun r₀ hr₀ done rest r hsplit hrun => ?_ }⟩
  · rw [hruns.tree_eq_respell hformed, occurrences_respell hformed, List.map_map]
    rfl
  · rw [hruns.globals_eq, mem_sorted]
    exact hfree
  · obtain ⟨fields, rfl, -⟩ := exists_fields_of_isProgram h
    obtain ⟨known', hknown', hocc⟩ := identifierNames_ok hformed rfl
    obtain rfl := Except.ok.inj (hknown'.symm.trans hknown)
    rw [resolverFor, hknown] at hr₀
    rw [← Except.ok.inj hr₀] at hrun
    exact follow_ahead h hocc hsound.separate.reserved_known hsplit hrun

set_option maxRecDepth 100000 in
/-- A parameter shadows a variable, and its first free number is already taken. -/
theorem resolve_separates_parameter :
    ∃ t, Grammar.parse .script "var a = 1; function f(a) { var a1 = b; return a + a1 }" = .ok t ∧
      t.isProgram = true ∧ ∃ res dry real, Separated t res dry real := by
  have hprogram : (Grammar.parse .script
      "var a = 1; function f(a) { var a1 = b; return a + a1 }").toOption.any isProgram = true := by
    decide +kernel
  cases hparse : Grammar.parse .script
      "var a = 1; function f(a) { var a1 = b; return a + a1 }" with
  | error e => rw [hparse] at hprogram; cases hprogram
  | ok t =>
      rw [hparse] at hprogram
      exact ⟨t, rfl, hprogram, resolve_separates_bindings hprogram⟩

end NameRecovery.Scope
