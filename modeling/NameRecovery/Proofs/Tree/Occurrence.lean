import NameRecovery.Proofs.Tree.Branch

/-!
# Occurrences of bindings

An occurrence is an identifier that names a binding, with the path that leads to
it.  On a formed tree the nodes met on the way are the root and those of its
branches in order.

* `Tree.occurrences` — the occurrences of a tree, in document order;
* `Tree.occurrencesAt_node` — those of a node are those of its branches;
* `Tree.paths_nodup_below` — paths below different branches are different.
-/

namespace NameRecovery

/-- The path and the name of a visited identifier that names a binding. -/
def Visit.occurrence? (visit : Visit) : Option (Path × String) :=
  if visit.isIdentifier && visit.isBinding then
    ((visit.node.get "name").text?).map fun name => (visit.path, name)
  else none

namespace Tree

/-- The occurrences in a value, if it is a node. -/
def occurrencesAt (spot : Spot) (t : Tree) : List (Path × String) :=
  (t.visitsAt spot).filterMap Visit.occurrence?

/-- The identifiers that name bindings, in document order: the path and the name of
each. -/
def occurrences (t : Tree) : List (Path × String) :=
  t.visits.filterMap Visit.occurrence?

/-- The place of a branch of a node that a path leads to. -/
def spotAt (t : Tree) (path : Path) (step : Step) : Spot :=
  ⟨some t, some step.field, path ++ [step]⟩

/-! ## Visits by branches -/

theorem visitsAt_of_not_node {t : Tree} (h : t.isNode = false) (spot : Spot) :
    t.visitsAt spot = [] := by
  cases t with
  | node kind fields => exact absurd h (by simp [isNode, kind?])
  | _ => rfl

theorem itemVisits_eq (parent : Tree) (path : Path) (key : String) (items : List Tree)
    (start : Nat) :
    itemVisits parent path key start items =
      (items.zipIdx start).flatMap fun item =>
        visitsAt (parent.spotAt path ⟨key, item.2⟩) item.1 := by
  induction items generalizing start with
  | nil => rfl
  | cons item rest ih => rw [itemVisits, ih, List.zipIdx_cons, List.flatMap_cons]; rfl

theorem fieldVisits_eq (parent : Tree) (path : Path) (fields : List (String × Tree)) :
    fieldVisits parent path fields = fields.map fun field =>
      (field.1, (placed field.1 field.2).flatMap fun b => visitsAt (parent.spotAt path b.1) b.2) := by
  induction fields with
  | nil => rfl
  | cons field rest ih =>
      obtain ⟨key, value⟩ := field
      rw [List.map_cons]
      cases value with
      | list items =>
          rw [fieldVisits, ih, itemVisits_eq, placed, List.flatMap_map]
      | _ =>
          rw [fieldVisits, ih, placed_of_ne_list (by simp), List.flatMap_singleton]
          · rfl
          · simp

theorem flatMap_placedIn {α : Type} (fields : List (String × Tree))
    (part : Step × Tree → List α) :
    (fields.flatMap fun field => (placed field.1 field.2).flatMap part) =
      (placedIn fields).flatMap part := by
  rw [placedIn, List.flatMap_assoc]

theorem placed_data (key : String) {t : Tree} (h : t.isData = true) :
    placed key t = [(⟨key, 0⟩, t)] ∧ t.isNode = false := by
  cases t with
  | null | list _ | node _ _ => exact absurd h (by simp [isData])
  | _ => exact ⟨rfl, rfl⟩

/-- A formed node is visited first, and then the nodes of its branches in order. -/
theorem visitsAt_node {kind : String} {fields : List (String × Tree)}
    (h : isLaidOut kind fields = true) (spot : Spot) :
    (Tree.node kind fields).visitsAt spot =
      ⟨.node kind fields, spot.parent, spot.field, spot.path⟩ ::
        (placedIn fields).flatMap fun b =>
          visitsAt (spotAt (.node kind fields) spot.path b.1) b.2 := by
  rw [visitsAt, fieldVisits_eq, flatten_inDocumentOrder h, flatMap_placedIn]
  intro field _ hdata
  obtain ⟨hplaced, hnode⟩ := placed_data field.1 hdata
  rw [hplaced, List.flatMap_singleton, visitsAt_of_not_node hnode]

/-! ## Occurrences by branches -/

theorem occurrencesAt_of_not_node {t : Tree} (h : t.isNode = false) (spot : Spot) :
    t.occurrencesAt spot = [] := by
  rw [occurrencesAt, visitsAt_of_not_node h, List.filterMap_nil]

/-- The occurrences of a formed node that is no identifier are those of its branches. -/
theorem occurrencesAt_node {kind : String} {fields : List (String × Tree)}
    (h : isLaidOut kind fields = true) (hkind : kind ≠ "Identifier") (spot : Spot) :
    (Tree.node kind fields).occurrencesAt spot =
      (placedIn fields).flatMap fun b =>
        occurrencesAt (spotAt (.node kind fields) spot.path b.1) b.2 := by
  have hroot : Visit.occurrence? ⟨.node kind fields, spot.parent, spot.field, spot.path⟩ = none := by
    simp [Visit.occurrence?, Visit.isIdentifier, isKind, kind?, hkind]
  rw [occurrencesAt, visitsAt_node h, List.filterMap_cons, hroot, List.filterMap_flatMap]
  rfl

/-- A formed identifier has a name and nothing else. -/
theorem fields_of_identifier {fields : List (String × Tree)}
    (h : isLaidOut "Identifier" fields = true) : ∃ name, fields = [("name", .text name)] := by
  obtain ⟨layout, hmem, hfits⟩ := isLaidOut_iff.1 h
  have hlayout : layout = [("name", .text)] := by simpa [schema] using hmem
  rw [hlayout, fits_cons] at hfits
  obtain ⟨value, rest, rfl, hvalue, hrest⟩ := hfits
  rw [fits_nil.1 hrest]
  cases value with
  | text name => exact ⟨name, rfl⟩
  | _ => exact absurd hvalue (by simp [Slot.accepts])

/-- An identifier is an occurrence where it names a binding. -/
theorem occurrencesAt_identifier (name : String) (spot : Spot) :
    (Tree.node "Identifier" [("name", .text name)]).occurrencesAt spot =
      if isBindingPlace spot.parent spot.field then [(spot.path, name)] else [] := by
  have hbelow : (Tree.node "Identifier" [("name", .text name)]).visitsAt spot =
      [⟨.node "Identifier" [("name", .text name)], spot.parent, spot.field, spot.path⟩] := by
    rw [visitsAt_node rfl]
    rfl
  rw [occurrencesAt, hbelow]
  cases hplace : isBindingPlace spot.parent spot.field with
  | true =>
      simp [Visit.occurrence?, Visit.isIdentifier, Visit.isBinding, isKind, kind?, hplace, get,
        get?, text?]
  | false => simp [Visit.occurrence?, Visit.isBinding, hplace]

/-- What occurs in a value is told by its path and by whether it stands where an
identifier names a binding. -/
theorem occurrencesAt_congr {spot spot' : Spot} (hpath : spot.path = spot'.path)
    (hplace : isBindingPlace spot.parent spot.field = isBindingPlace spot'.parent spot'.field)
    (t : Tree) : t.occurrencesAt spot = t.occurrencesAt spot' := by
  cases t with
  | node kind fields =>
      have hbinding : Visit.isBinding ⟨.node kind fields, spot.parent, spot.field, spot.path⟩ =
          Visit.isBinding ⟨.node kind fields, spot'.parent, spot'.field, spot.path⟩ := hplace
      have hroot : Visit.occurrence? ⟨.node kind fields, spot.parent, spot.field, spot.path⟩ =
          Visit.occurrence? ⟨.node kind fields, spot'.parent, spot'.field, spot.path⟩ := by
        rw [Visit.occurrence?, Visit.occurrence?, hbinding]
        rfl
      rw [occurrencesAt, occurrencesAt, visitsAt, visitsAt, ← hpath, List.filterMap_cons,
        List.filterMap_cons, hroot]
  | _ => rfl

/-! ## Paths -/

theorem placed_steps_nodup (key : String) (t : Tree) : ((placed key t).map Prod.fst).Nodup := by
  cases t with
  | list items =>
      rw [placed, List.map_map]
      have hindex : (items.zipIdx.map Prod.snd).Nodup := by
        rw [List.zipIdx_map_snd]
        exact List.nodup_range' ..
      refine List.Nodup.of_map (f := Step.index) ?_
      simpa [Function.comp_def] using hindex
  | _ => simp [placed]

/-- Different values in fields of different names have different places. -/
theorem placedIn_steps_nodup {fields : List (String × Tree)}
    (hkeys : (fields.map Prod.fst).Nodup) : ((placedIn fields).map Prod.fst).Nodup := by
  induction fields with
  | nil => simp [placedIn]
  | cons field rest ih =>
      obtain ⟨hfield, hrest⟩ := List.nodup_cons.1 hkeys
      rw [placedIn, List.flatMap_cons, List.map_append, List.nodup_append]
      refine ⟨placed_steps_nodup .., ih hrest, ?_⟩
      rintro step hstep step' hstep' rfl
      obtain ⟨b, hb, rfl⟩ := List.mem_map.1 hstep
      obtain ⟨b', hb', hstep⟩ := List.mem_map.1 hstep'
      obtain ⟨field', hfield', hb'⟩ := List.mem_flatMap.1 hb'
      refine hfield (List.mem_map.2 ⟨field', hfield', ?_⟩)
      rw [← placed_field hb, ← placed_field hb', hstep]

/-- The fields of a formed node have different names. -/
theorem keys_nodup {kind : String} {fields : List (String × Tree)}
    (h : isLaidOut kind fields = true) : (fields.map Prod.fst).Nodup := by
  obtain ⟨layout, hmem, hfits⟩ := isLaidOut_iff.1 h
  have hordered := schema_isOrdered _ hmem
  rw [isOrdered, Bool.and_eq_true, decide_eq_true_eq] at hordered
  rw [(keys_of_fits hfits).1]
  exact hordered.1

/-- Different branches of a formed node have different places. -/
theorem steps_nodup {kind : String} {fields : List (String × Tree)}
    (h : isLaidOut kind fields = true) : ((placedIn fields).map Prod.fst).Nodup :=
  placedIn_steps_nodup (keys_nodup h)

/-- A path leads through one branch only. -/
theorem step_unique {path p : Path} {step step' : Step} (h : path ++ [step] <+: p)
    (h' : path ++ [step'] <+: p) : step = step' := by
  obtain ⟨rest, rfl⟩ := h
  obtain ⟨rest', heq⟩ := h'
  simp only [List.append_assoc, List.append_cancel_left_eq, List.singleton_append,
    List.cons.injEq] at heq
  exact heq.1.symm

/-- Paths that are all different below each branch are all different, and lead below the
node. -/
theorem paths_nodup_below {bs : List (Step × Tree)} (hsteps : (bs.map Prod.fst).Nodup)
    (path : Path) (part : Step × Tree → List Path)
    (hpart : ∀ b ∈ bs, (part b).Nodup ∧ ∀ p ∈ part b, path ++ [b.1] <+: p) :
    (bs.flatMap part).Nodup ∧ ∀ p ∈ bs.flatMap part, path <+: p ∧ p ≠ path := by
  refine ⟨List.nodup_flatMap.2 ⟨fun b hb => (hpart b hb).1, ?_⟩, ?_⟩
  · have hpairs : bs.Pairwise fun b b' => b.1 ≠ b'.1 := List.pairwise_map.1 hsteps
    refine hpairs.imp_of_mem fun {b b'} hb hb' hne p hp hp' => hne ?_
    exact step_unique ((hpart b hb).2 p hp) ((hpart b' hb').2 p hp')
  · intro p hp
    obtain ⟨b, hb, hpb⟩ := List.mem_flatMap.1 hp
    obtain ⟨rest, rfl⟩ := (hpart b hb).2 p hpb
    refine ⟨⟨b.1 :: rest, by simp⟩, ?_⟩
    simp

theorem occurrence?_path {visit : Visit} {o : Path × String}
    (h : visit.occurrence? = some o) :
    o.1 = visit.path ∧ visit.isIdentifier = true ∧ visit.isBinding = true := by
  rw [Visit.occurrence?] at h
  split at h
  · rename_i hcond
    obtain ⟨name, -, rfl⟩ := Option.map_eq_some_iff.1 h
    exact ⟨rfl, by simpa using hcond⟩
  · cases h

/-- The paths of the occurrences are paths of nodes, in the same order. -/
theorem occurrencesAt_paths_sublist (spot : Spot) (t : Tree) :
    ((t.occurrencesAt spot).map Prod.fst).Sublist ((t.visitsAt spot).map Visit.path) := by
  rw [occurrencesAt]
  induction t.visitsAt spot with
  | nil => exact List.Sublist.slnil
  | cons visit rest ih =>
      rw [List.filterMap_cons]
      cases hvisit : visit.occurrence? with
      | none => exact ih.cons _
      | some o => rw [List.map_cons, List.map_cons, (occurrence?_path hvisit).1]; exact ih.cons_cons _

/-! ## Visits of a formed tree -/

theorem isFormed_visit {t : Tree} (h : t.isFormed = true) (spot : Spot) :
    ∀ visit ∈ t.visitsAt spot, visit.node.isFormed = true := by
  induction t using branch_induction generalizing spot with
  | step t ih =>
      cases t with
      | node kind fields =>
          intro visit hvisit
          rw [visitsAt_node (isFormed_node.1 h).1] at hvisit
          rcases List.mem_cons.1 hvisit with rfl | hvisit
          · exact h
          · obtain ⟨b, hb, hvisit⟩ := List.mem_flatMap.1 hvisit
            exact ih b hb (isFormed_branch h hb) _ visit hvisit
      | _ => intro visit hvisit; exact absurd hvisit List.not_mem_nil

theorem walk_node (kind : String) (fields : List (String × Tree)) :
    (Tree.node kind fields).walk = .ok (Tree.node kind fields).visits := by
  simp [walk, need, get?, bind, Except.bind, pure, Except.pure]

/-- A formed identifier has a name and nothing else. -/
theorem node_of_isIdentifier {visit : Visit} (hformed : visit.node.isFormed = true)
    (h : visit.isIdentifier = true) :
    ∃ name, visit.node = .node "Identifier" [("name", .text name)] := by
  rw [Visit.isIdentifier] at h
  cases hnode : visit.node with
  | node kind fields =>
      rw [hnode] at hformed h
      have hkind : kind = "Identifier" := by simpa [isKind, kind?] using h
      subst hkind
      obtain ⟨name, rfl⟩ := fields_of_identifier (isFormed_node.1 hformed).1
      exact ⟨name, rfl⟩
  | _ => rw [hnode] at h; simp [isKind, kind?] at h

end Tree
end NameRecovery
