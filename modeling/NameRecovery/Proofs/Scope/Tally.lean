import NameRecovery.Proofs.Scope.Idempotence

/-!
# What resolving changes, and how often

Resolving a program respells identifiers that name bindings, and touches nothing else:
property keys, member names, labels and the outer names of imports and exports are
identifiers, too, but they stay.  The resolver counts what it respells while it walks, and
every new spelling comes from a binding it has renamed.

* `Tree.identifiers` — the identifiers of a tree, those that name no binding included;
* `Tree.identifiers_respell` — a respelling changes the names of some of them;
* `Walk.Tallies` — the count of the respelled mentions, and where their names come from;
* `resolve_changes_names_only` — the tree before and after, and the number of differences.
-/

namespace NameRecovery

/-! ## Identifiers -/

/-- An identifier of a tree. -/
structure Identifier where
  /-- The path that leads to it. -/
  path : Path
  /-- Does it name a binding? -/
  binding : Bool
  /-- The name. -/
  name : String
  deriving Repr, DecidableEq

/-- The identifier with a new name, if it names a binding. -/
def Identifier.respelled (spell : Tree.Spelling) (i : Identifier) : Identifier :=
  { i with name := if i.binding then spell i.path i.name else i.name }

/-- The visited identifier. -/
def Visit.identifier? (visit : Visit) : Option Identifier :=
  if visit.isIdentifier then
    ((visit.node.get "name").text?).map fun name => ⟨visit.path, visit.isBinding, name⟩
  else none

namespace Tree

/-- The identifiers in a value. -/
def identifiersAt (spot : Spot) (t : Tree) : List Identifier :=
  (t.visitsAt spot).filterMap Visit.identifier?

/-- The identifiers of a tree, in document order. -/
def identifiers (t : Tree) : List Identifier :=
  t.identifiersAt ⟨none, none, []⟩

variable {spell : Spelling}

theorem identifiersAt_identifier (name : String) (spot : Spot) :
    (Tree.node "Identifier" [("name", .text name)]).identifiersAt spot =
      [⟨spot.path, isBindingPlace spot.parent spot.field, name⟩] := by
  have hvisits : (Tree.node "Identifier" [("name", .text name)]).visitsAt spot =
      [⟨.node "Identifier" [("name", .text name)], spot.parent, spot.field, spot.path⟩] := by
    rw [visitsAt_node rfl]
    rfl
  rw [identifiersAt, hvisits]
  rfl

/-- The identifiers of any other node are those of its branches. -/
theorem identifiersAt_node {kind : String} {fields : List (String × Tree)}
    (h : isLaidOut kind fields = true) (hkind : kind ≠ "Identifier") (spot : Spot) :
    (Tree.node kind fields).identifiersAt spot =
      (placedIn fields).flatMap fun b =>
        identifiersAt (spotAt (.node kind fields) spot.path b.1) b.2 := by
  have hroot : Visit.identifier? ⟨.node kind fields, spot.parent, spot.field, spot.path⟩ = none := by
    simp [Visit.identifier?, Visit.isIdentifier, isKind, kind?, hkind]
  rw [identifiersAt, visitsAt_node h, List.filterMap_cons, hroot, List.filterMap_flatMap]
  rfl

/-- A respelling keeps the identifiers, and changes the names of those that name bindings. -/
theorem identifiersAt_respellAt {t : Tree} (h : t.isFormed = true) {spot spot' : Spot}
    (hpath : spot'.path = spot.path)
    (hplace : isBindingPlace spot'.parent spot'.field = isBindingPlace spot.parent spot.field) :
    (respellAt spell (isBindingPlace spot.parent spot.field) spot.path t).identifiersAt spot' =
      (t.identifiersAt spot).map (Identifier.respelled spell) := by
  induction t using branch_induction generalizing spot spot' with
  | step t ih =>
      cases t with
      | node kind fields =>
          obtain ⟨hlaid, -⟩ := isFormed_node.1 h
          by_cases hkind : kind = "Identifier"
          · subst hkind
            obtain ⟨name, rfl⟩ := fields_of_identifier hlaid
            rw [respellAt_identifier, identifiersAt_identifier, identifiersAt_identifier, hplace,
              hpath]
            rfl
          · have hplaces := isBindingPlace_respellAt spell hkind
              (isBindingPlace spot.parent spot.field) spot.path fields
            rw [respellAt_node hkind] at hplaces ⊢
            rw [identifiersAt_node (by rw [isLaidOut_respell]; exact hlaid) hkind,
              identifiersAt_node hlaid hkind, placedIn_respell, List.flatMap_map,
              List.map_flatMap, hpath]
            refine List.flatMap_congr fun b hb => ?_
            have hbranch := @ih b hb (isFormed_branch h hb)
              (spotAt (.node kind fields) spot.path b.1)
            exact hbranch rfl (hplaces (some b.1.field))
      | _ => rfl

theorem identifiers_respell {t : Tree} (h : t.isFormed = true) :
    (t.respell spell).identifiers = t.identifiers.map (Identifier.respelled spell) :=
  @identifiersAt_respellAt spell t h ⟨none, none, []⟩ ⟨none, none, []⟩ rfl rfl

/-- The occurrences are the identifiers that name bindings. -/
theorem occurrences_eq_identifiers (t : Tree) :
    t.occurrences = (t.identifiers.filter Identifier.binding).map fun i => (i.path, i.name) := by
  rw [occurrences, identifiers, identifiersAt, ← visits, List.filter_filterMap,
    List.map_filterMap]
  refine List.filterMap_congr fun visit _ => ?_
  rw [Visit.occurrence?, Visit.identifier?]
  cases visit.isIdentifier with
  | false => rfl
  | true =>
      cases (visit.node.get "name").text? with
      | none => cases visit.isBinding <;> rfl
      | some name => cases hbinding : visit.isBinding <;> simp [Option.filter]

/-- The spellings of the identifiers of a formed tree are read one by one. -/
theorem identifierNames_eq {t : Tree} (h : t.isFormed = true) (hnode : t.isNode = true) :
    t.identifierNames = .ok (t.identifiers.map Identifier.name) := by
  have hread : ∀ visits : List Visit, (∀ visit ∈ visits, visit.node.isFormed = true) →
      namesOfIdentifiers visits =
        .ok ((visits.filterMap Visit.identifier?).map Identifier.name) := by
    intro visits
    induction visits with
    | nil => intro _; rfl
    | cons visit rest ih =>
        intro hformed
        have hrest := ih fun v hv => hformed v (List.mem_cons_of_mem _ hv)
        rw [namesOfIdentifiers, List.filterMap_cons]
        cases hidentifier : visit.isIdentifier with
        | false => simpa [Visit.identifier?, hidentifier] using hrest
        | true =>
            obtain ⟨name, hname⟩ :=
              node_of_isIdentifier (hformed visit List.mem_cons_self) hidentifier
            have hentry : visit.identifier? = some ⟨visit.path, visit.isBinding, name⟩ := by
              rw [Visit.identifier?, hidentifier, hname]
              rfl
            rw [hentry, hname, hrest]
            rfl
  cases t with
  | node kind fields =>
      rw [identifierNames, walk_node]
      exact hread _ (isFormed_visit h ⟨none, none, []⟩)
  | _ => cases hnode

end Tree

namespace Scope

open NameRecovery.Tree

/-! ## Counting on the way -/

/-- What a walk has counted, and where the new spellings come from. -/
structure Walk.Tallies (w : Walk) : Prop where
  /-- Every new spelling is counted. -/
  counted : w.resolver.respelled = w.resolver.edits.length
  /-- No mention is respelled twice. -/
  paths_nodup : (w.resolver.edits.map Prod.fst).Nodup
  /-- A mention that is respelled gets another name, that of a renamed binding. -/
  changed : ∀ {p m}, (p, m) ∈ w.resolver.edits →
    ∃ r, (p, r) ∈ w.referents ∧ m ≠ r.name ∧ (r.name, m) ∈ w.resolver.renames

namespace Walk.Tallies

variable {known reserved : List String} {w w' : Walk} {rest : List Event}

/-- An event that respells nothing keeps the tally. -/
theorem unchanged (h : w.Tallies) (hrespelled : w'.resolver.respelled = w.resolver.respelled)
    (hedits : w'.resolver.edits = w.resolver.edits)
    (hreferents : ∀ m ∈ w.referents, m ∈ w'.referents)
    (hrenames : ∀ p ∈ w.resolver.renames, p ∈ w'.resolver.renames) : w'.Tallies where
  counted := by rw [hrespelled, hedits]; exact h.counted
  paths_nodup := by rw [hedits]; exact h.paths_nodup
  changed := by
    intro p m hmem
    rw [hedits] at hmem
    obtain ⟨r, hr, hne, hrename⟩ := h.changed hmem
    exact ⟨r, hreferents _ hr, hne, hrenames _ hrename⟩

theorem step_mention {path : Path} {name : String} (h : w.Tallies) (hcounts : w.Counts reserved)
    (hsound : w.Sound known reserved (.mention path name :: rest))
    (hstep : w.step (.mention path name) = .ok w') : w'.Tallies := by
  obtain ⟨hres, hnote⟩ := step_ok hstep
  have hreferents : w'.referents = w.referents ++ [(path, w.referent name)] := by rw [hnote]; rfl
  have hold : ∀ m ∈ w.referents, m ∈ w'.referents := fun m hm => by
    rw [hreferents]
    exact List.mem_append_left _ hm
  rcases w.referent_cases name hsound.open_length with
    ⟨-, hlookup⟩ | ⟨scope, frame, new, href, hopen, hfind, hlookup⟩
  · rw [Resolver.step_mention_free path hlookup] at hres
    have hnext := (Except.ok.inj hres).symm
    exact h.unchanged (by rw [hnext]) (by rw [hnext]) hold (by rw [hnext]; exact fun _ hp => hp)
  · rw [Resolver.step_mention_bound path hlookup] at hres
    have hnext := (Except.ok.inj hres).symm
    by_cases hnew : new ≠ name ∧ ¬ w.resolver.dryRun
    · rw [if_pos hnew] at hnext
      have hfresh : path ∉ w.resolver.edits.map Prod.fst := fun hmem =>
        hsound.mention_fresh.1 (hsound.edits_met path hmem)
      have hgives : w.filled.Gives scope name new := ⟨frame, hsound.open_filled _ hopen, hfind⟩
      have hrename := (hcounts.accounted.renamed hgives).resolve_left hnew.1
      refine ⟨?_, ?_, fun {p m} hmem => ?_⟩
      · rw [hnext]
        exact congrArg (· + 1) h.counted
      · rw [hnext]
        exact List.nodup_cons.2 ⟨hfresh, h.paths_nodup⟩
      · rw [hnext] at hmem ⊢
        rcases List.mem_cons.1 hmem with heq | hmem
        · obtain ⟨rfl, rfl⟩ := Prod.mk.inj heq
          refine ⟨w.referent name, ?_, ?_⟩
          · rw [hreferents]
            exact List.mem_append_right _ (List.mem_singleton_self _)
          · rw [href]
            exact ⟨hnew.1, hrename⟩
        · obtain ⟨r, hr, hne, hmem'⟩ := h.changed hmem
          exact ⟨r, hold _ hr, hne, hmem'⟩
    · rw [if_neg hnew] at hnext
      exact h.unchanged (by rw [hnext]) (by rw [hnext]) hold (by rw [hnext]; exact fun _ hp => hp)

/-- **One event** keeps the tally. -/
theorem step {event : Event} (h : w.Tallies) (hcounts : w.Counts reserved)
    (hsound : w.Sound known reserved (event :: rest)) (hstep : w.step event = .ok w') :
    w'.Tallies := by
  cases event with
  | declare _ | broken _ =>
      exact absurd (hsound.plain _ List.mem_cons_self) (by simp [Event.isPlain])
  | mention path name => exact h.step_mention hcounts hsound hstep
  | enter scope names =>
      obtain ⟨hres, hnote⟩ := step_ok hstep
      rw [Resolver.step_enter] at hres
      have hnext := (Except.ok.inj hres).symm
      have hrenames := w.resolver.renames_declareAll names []
      obtain ⟨counters, taken, renames, hframe⟩ := w.resolver.declareAll_frame names []
      refine h.unchanged (by rw [hnext, hframe]) (by rw [hnext, hframe]) ?_ ?_
      · rw [hnote]
        exact fun m hm => hm
      · rw [hnext]
        exact fun p hp => hrenames.subset hp
  | leave =>
      obtain ⟨hres, hnote⟩ := step_ok hstep
      obtain ⟨frame, frames, -, hnext⟩ := Resolver.step_leave hres
      refine h.unchanged (by rw [hnext]) (by rw [hnext]) ?_ (by rw [hnext]; exact fun _ hp => hp)
      rw [hnote]
      exact fun m hm => hm

/-- **Every run** keeps it. -/
theorem follow {done : List Event} (h : w.Tallies) (hcounts : w.Counts reserved)
    (hsound : w.Sound known reserved (done ++ rest)) (hrun : w.follow done = .ok w') :
    w'.Tallies := by
  induction done generalizing w with
  | nil => rw [← Except.ok.inj hrun]; exact h
  | cons event done ih =>
      obtain ⟨next, hstep, hrun⟩ := Walk.follow_cons_ok hrun
      exact ih (h.step hcounts hsound hstep) (hcounts.step hsound hstep)
        (hsound.step hstep) hrun

end Walk.Tallies

theorem Walk.opened_tallies (known reserved names : List String) :
    (Walk.opened known reserved false names).Tallies := by
  have hedits := Walk.opened_edits known reserved false names
  obtain ⟨counters, taken, renames, hframe⟩ :=
    (Resolver.start known reserved false).declareAll_frame names []
  refine ⟨?_, ?_, fun {p m} hmem => ?_⟩
  · rw [hedits]
    simp only [Walk.opened, hframe]
    rfl
  · rw [hedits]
    exact List.nodup_nil
  · rw [hedits] at hmem
    exact absurd hmem List.not_mem_nil

/-! ## The resolved program -/

namespace Runs

variable {t : Tree} {res : Resolution} {dry real : Walk}

theorem tallies (h : Runs t res dry real) (hprogram : t.isProgram = true) : real.Tallies := by
  obtain ⟨known, names, body, -, hopened, hw⟩ := h.opened hprogram
  exact (Walk.opened_tallies ..).follow (Walk.opened_counts ..) hopened hw

/-- An occurrence is respelled exactly if it has an edit, and then as a renamed binding. -/
theorem respelled_iff (h : Runs t res dry real) (hprogram : t.isProgram = true)
    {o : Path × String} (ho : o ∈ t.occurrences) :
    (real.spelling o.1 o.2 ≠ o.2 ↔ o.1 ∈ real.resolver.edits.map Prod.fst) ∧
      (real.spelling o.1 o.2 ≠ o.2 → (o.2, real.spelling o.1 o.2) ∈ real.resolver.renames) := by
  have htallies := h.tallies hprogram
  have hformed := isFormed_of_isProgram hprogram
  cases hlookup : real.resolver.edits.lookup o.1 with
  | none =>
      have hsame : real.spelling o.1 o.2 = o.2 := by rw [Walk.spelling, hlookup]; rfl
      have hnone : o.1 ∉ real.resolver.edits.map Prod.fst := by
        intro hmem
        obtain ⟨e, he, heq⟩ := List.mem_map.1 hmem
        have hne := List.lookup_eq_none_iff.1 hlookup e he
        simp [heq] at hne
      exact ⟨⟨fun hne => absurd hsame hne, fun hmem => absurd hmem hnone⟩,
        fun hne => absurd hsame hne⟩
  | some new =>
      obtain ⟨l₁, l₂, hsplit, -⟩ := List.lookup_eq_some_iff.1 hlookup
      have hmem : (o.1, new) ∈ real.resolver.edits := by rw [hsplit]; simp
      have hnew : real.spelling o.1 o.2 = new := by rw [Walk.spelling, hlookup]; rfl
      obtain ⟨r, hr, hne, hrename⟩ := htallies.changed hmem
      have hname : r.name = o.2 := by
        rw [← h.alike.referents] at hr
        have hocc : (o.1, r.name) ∈ t.occurrences := by
          rw [← h.referents_occurrences]
          exact List.mem_map.2 ⟨_, hr, rfl⟩
        exact congrArg Prod.snd
          (List.inj_on_of_nodup_map (occurrences_paths_nodup hformed) hocc ho rfl)
      rw [hname] at hne hrename
      rw [hnew]
      exact ⟨⟨fun _ => List.mem_map.2 ⟨_, hmem, rfl⟩, fun _ => hne⟩, fun _ => hrename⟩

/-- The count of the resolver is the number of occurrences with a new spelling. -/
theorem respelled_eq (h : Runs t res dry real) (hprogram : t.isProgram = true) :
    real.resolver.respelled =
      t.occurrences.countP fun o => real.spelling o.1 o.2 ≠ o.2 := by
  have htallies := h.tallies hprogram
  have hpaths := occurrences_paths_nodup (isFormed_of_isProgram hprogram)
  have hperm : ((t.occurrences.map Prod.fst).filter
      fun p => p ∈ real.resolver.edits.map Prod.fst).Perm (real.resolver.edits.map Prod.fst) := by
    refine (List.perm_ext_iff_of_nodup (hpaths.filter _) htallies.paths_nodup).2 fun p => ?_
    rw [List.mem_filter, decide_eq_true_eq]
    refine ⟨fun hp => hp.2, fun hp => ⟨?_, hp⟩⟩
    obtain ⟨e, he, rfl⟩ := List.mem_map.1 hp
    exact h.edits_occurrences e he
  have hlength := hperm.length_eq
  rw [List.length_map, ← List.countP_eq_length_filter, List.countP_map] at hlength
  rw [htallies.counted, ← hlength]
  refine List.countP_congr fun o ho => ?_
  rw [Function.comp, decide_eq_true_eq, decide_eq_true_eq]
  exact (h.respelled_iff hprogram ho).1.symm

end Runs

/-- What resolving the program `t` changes. -/
structure NamesOnly (t : Tree) (res : Resolution) (spell : Spelling)
    (before after : List String) : Prop where
  /-- Resolving the program succeeds. -/
  resolved : resolve t = .ok res
  /-- Identifiers that name bindings are spelled anew; all else is as it was. -/
  tree_eq : res.tree = t.respell spell
  /-- The names of all identifiers before. -/
  before_eq : t.identifierNames = .ok before
  /-- The names of all identifiers after. -/
  after_eq : res.tree.identifierNames = .ok after
  /-- There are as many identifiers after as before. -/
  same_length : after.length = before.length
  /-- The resolver has counted the names that changed. -/
  counted : res.resolver.respelled = (before.zip after).countP fun names => names.1 ≠ names.2
  /-- A name that changed is that of a renamed binding. -/
  changed : ∀ names ∈ before.zip after, names.1 ≠ names.2 → names ∈ res.resolver.renames

/-- **Resolving changes names of bindings only, and counts them exactly**, whatever the
program. -/
theorem resolve_changes_names_only {t : Tree} (h : t.isProgram = true) :
    ∃ res spell before after, NamesOnly t res spell before after := by
  obtain ⟨res, dry, real, hruns⟩ := runs_program h
  have hformed := isFormed_of_isProgram h
  have htree : res.tree = t.respell real.spelling := hruns.tree_eq_respell hformed
  have hnode : ∀ {t : Tree}, t.isProgram = true → t.isNode = true := fun h => by
    obtain ⟨fields, rfl, -⟩ := exists_fields_of_isProgram h
    rfl
  have hafter : res.tree.identifierNames = .ok
      ((t.identifiers.map (Identifier.respelled real.spelling)).map Identifier.name) := by
    rw [htree, ← identifiers_respell hformed]
    exact identifierNames_eq (isFormed_respellAt hformed ..) (hnode (isProgram_respell h))
  have hzip : (t.identifiers.map Identifier.name).zip
      ((t.identifiers.map (Identifier.respelled real.spelling)).map Identifier.name) =
      t.identifiers.map fun i => (i.name, (i.respelled real.spelling).name) := by
    rw [List.map_map, List.zip_map']
    rfl
  have hoccurrence : ∀ i ∈ t.identifiers, i.binding = true → (i.path, i.name) ∈ t.occurrences := by
    intro i hi hbinding
    rw [occurrences_eq_identifiers]
    exact List.mem_map.2 ⟨i, List.mem_filter.2 ⟨hi, hbinding⟩, rfl⟩
  refine ⟨res, real.spelling, _, _,
    { resolved := hruns.resolved
      tree_eq := htree
      before_eq := identifierNames_eq hformed (hnode h)
      after_eq := hafter
      same_length := by simp
      counted := ?_
      changed := fun names hnames hne => ?_ }⟩
  · rw [hruns.resolver_eq, hzip, List.countP_map]
    refine (hruns.respelled_eq h).trans ?_
    rw [occurrences_eq_identifiers, List.countP_map, List.countP_filter]
    refine List.countP_congr fun i _ => ?_
    cases hbinding : i.binding with
    | false => simp [Identifier.respelled, hbinding]
    | true => simpa [Identifier.respelled, hbinding] using ne_comm
  · rw [hzip] at hnames
    obtain ⟨i, hi, rfl⟩ := List.mem_map.1 hnames
    rw [hruns.resolver_eq]
    cases hbinding : i.binding with
    | false => simp [Identifier.respelled, hbinding] at hne
    | true =>
        have hname : (i.respelled real.spelling).name = real.spelling i.path i.name := by
          rw [Identifier.respelled, hbinding]
          rfl
        rw [hname] at hne ⊢
        exact (hruns.respelled_iff h (hoccurrence i hi hbinding)).2 (Ne.symm hne)

set_option maxRecDepth 100000 in
/-- A parameter, its mentions and a key and a member spelled like it. -/
theorem resolve_changes_names_only_member :
    ∃ t, Grammar.parse .script "var a; function f(a) { return {a: a.a} }" = .ok t ∧
      t.isProgram = true ∧ ∃ res spell before after, NamesOnly t res spell before after := by
  have hprogram : (Grammar.parse .script
      "var a; function f(a) { return {a: a.a} }").toOption.any isProgram = true := by
    decide +kernel
  cases hparse : Grammar.parse .script "var a; function f(a) { return {a: a.a} }" with
  | error e => rw [hparse] at hprogram; cases hprogram
  | ok t =>
      rw [hparse] at hprogram
      exact ⟨t, rfl, hprogram, resolve_changes_names_only hprogram⟩

end Scope
end NameRecovery
