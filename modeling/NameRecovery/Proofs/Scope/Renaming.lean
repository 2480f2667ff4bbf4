import NameRecovery.Proofs.Scope.Declared
import NameRecovery.Proofs.Scope.Nesting

/-!
# The scopes of a renamed program

The events of a formed program come from its branches: some branches stand outside the
scope of their node, the rest inside.  From that follows what the resolver relies on:
the events are nested, they mention exactly the occurrences of the tree, no two scopes
belong to the same node, and a renaming of the program renames the events and nothing
else.

* `eventsAt_node` — the events of a node by its branches;
* `mentions_events` — the mentions of a program are its occurrences;
* `events_rename` — a renaming renames the events;
* `nested_events` — the events of a program are nested.
-/

namespace NameRecovery.Scope

open NameRecovery.Tree

/-! ## Events by branches -/

/-- The fields of a kind of node that stand outside its scope. -/
def outerKeys (kind : String) : List String :=
  if kind = "SwitchStatement" then ["discriminant"]
  else if kind = "FunctionDeclaration" then ["id"]
  else []

/-- The branches of a node outside its scope. -/
def outerBranches (kind : String) (fields : List (String × Tree)) : List (Step × Tree) :=
  placedIn (fields.filter fun field => (outerKeys kind).contains field.1)

/-- The branches of a node inside its scope. -/
def innerBranches (kind : String) (fields : List (String × Tree)) : List (Step × Tree) :=
  placedIn (fields.filter fun field => !(outerKeys kind).contains field.1)

/-- The events of branches of the node at a path. -/
def branchEvents (t : Tree) (path : Path) (bs : List (Step × Tree)) : List Event :=
  bs.flatMap fun b => eventsAt (t.spotAt path b.1) b.2

theorem branchEvents_append (t : Tree) (path : Path) (bs bs' : List (Step × Tree)) :
    branchEvents t path (bs ++ bs') = branchEvents t path bs ++ branchEvents t path bs' :=
  List.flatMap_append ..

theorem itemEvents_eq (parent : Tree) (path : Path) (key : String) (items : List Tree)
    (start : Nat) :
    itemEvents parent path key start items =
      (items.zipIdx start).flatMap fun item =>
        eventsAt (parent.spotAt path ⟨key, item.2⟩) item.1 := by
  induction items generalizing start with
  | nil => rfl
  | cons item rest ih => rw [itemEvents, ih, List.zipIdx_cons, List.flatMap_cons]; rfl

theorem fieldEvents_eq (parent : Tree) (path : Path) (fields : List (String × Tree)) :
    fieldEvents parent path fields = fields.map fun field =>
      (field.1, branchEvents parent path (placed field.1 field.2)) := by
  induction fields with
  | nil => rfl
  | cons field rest ih =>
      obtain ⟨key, value⟩ := field
      rw [List.map_cons]
      cases value with
      | list items =>
          rw [fieldEvents, ih, itemEvents_eq, placed, branchEvents, List.flatMap_map]
      | _ =>
          rw [fieldEvents, ih, placed_of_ne_list (by simp), branchEvents, List.flatMap_singleton]
          · rfl
          · simp

theorem branchEvents_placedIn (t : Tree) (path : Path) (fields : List (String × Tree)) :
    (fields.flatMap fun field => branchEvents t path (placed field.1 field.2)) =
      branchEvents t path (placedIn fields) := by
  simp only [branchEvents]
  exact flatMap_placedIn ..

section Node

variable {kind : String} {fields : List (String × Tree)}

theorem fields_of_switch (h : isLaidOut "SwitchStatement" fields = true) :
    ∃ value cases, fields = [("discriminant", value), ("cases", .list cases)] ∧
      value.isNode = true ∧ ∀ item ∈ cases, item.isNode = true := by
  have hlayout : layouts "SwitchStatement" = [[("discriminant", .one expressionKinds),
      ("cases", .many ["SwitchCase"])]] := rfl
  simp only [isLaidOut, hlayout, List.any_cons, List.any_nil, Bool.or_false, fits_cons,
    fits_nil, accepts_many] at h
  obtain ⟨value, _, rfl, hvalue, _, _, rfl, ⟨cases, rfl, hcases⟩, rfl⟩ := h
  exact ⟨value, cases, rfl, isNode_of_isAny hvalue,
    fun item hitem => isNode_of_isAny (hcases item hitem)⟩

theorem fields_of_functionDeclaration (h : isLaidOut "FunctionDeclaration" fields = true) :
    ∃ id params body generator async expression,
      fields = [("id", id), ("params", params), ("body", body), ("generator", .bool generator),
        ("async", .bool async), ("expression", .bool expression)] ∧
      (id = .null ∨ id.isAny ["Identifier"] = true) := by
  have hlayout : layouts "FunctionDeclaration" = [[("id", .maybe ["Identifier"]),
      ("params", .many expressionKinds), ("body", .one ["BlockStatement"]), ("generator", .flag),
      ("async", .flag), ("expression", .flag)]] := rfl
  simp only [isLaidOut, hlayout, List.any_cons, List.any_nil, Bool.or_false, fits_cons,
    fits_nil, accepts_maybe, accepts_flag] at h
  obtain ⟨id, _, rfl, hid, params, _, rfl, -, body, _, rfl, -, _, _, rfl, ⟨generator, rfl⟩, _, _,
    rfl, ⟨async, rfl⟩, _, _, rfl, ⟨expression, rfl⟩, rfl⟩ := h
  exact ⟨id, params, body, generator, async, expression, rfl, hid⟩

/-- What is no node has no events. -/
theorem eventsAt_of_not_node (h : (Tree.node kind fields).isFormed = true) {path : Path}
    {b : Step × Tree} (hb : b ∈ placedIn fields) (hnode : b.2.isNode = false) :
    eventsAt (spotAt (.node kind fields) path b.1) b.2 = [] := by
  have hnot : isAlwaysVisited (spotAt (.node kind fields) path b.1) = false := by
    by_cases hkind : kind = "SwitchStatement"
    · -- The branches of a switch are all nodes.
      subst hkind
      obtain ⟨value, items, rfl, hvalue, hitems⟩ := fields_of_switch (isFormed_node.1 h).1
      have hne : ∀ items, value ≠ .list items := by rintro items rfl; cases hvalue
      have hplaced : placedIn [("discriminant", value), ("cases", .list items)] =
          (⟨"discriminant", 0⟩, value) :: placed "cases" (.list items) := by
        simp [placedIn, placed_of_ne_list hne]
      rw [hplaced] at hb
      rcases List.mem_cons.1 hb with rfl | hb
      · rw [hvalue] at hnode
        cases hnode
      · obtain ⟨item, hitem, rfl⟩ := List.mem_map.1 hb
        rw [hitems _ (List.fst_mem_of_mem_zipIdx hitem)] at hnode
        cases hnode
    · simp [isAlwaysVisited, spotAt, isKind, kind?, hkind]
  cases hvalue : b.2 with
  | node kind' fields' => rw [hvalue] at hnode; cases hnode
  | _ => rw [eventsAt, hnot]; rfl; simp

theorem branchEvents_data (h : (Tree.node kind fields).isFormed = true) (path : Path)
    {field : String × Tree} (hfield : field ∈ fields) (hdata : field.2.isData = true) :
    branchEvents (.node kind fields) path (placed field.1 field.2) = [] := by
  obtain ⟨hplaced, hnode⟩ := placed_data field.1 hdata
  have hb : ((⟨field.1, 0⟩, field.2) : Step × Tree) ∈ placedIn fields :=
    List.mem_flatMap.2 ⟨field, hfield, by rw [hplaced]; exact List.mem_singleton.2 rfl⟩
  rw [hplaced, branchEvents, List.flatMap_singleton]
  exact eventsAt_of_not_node h hb hnode

/-- In document order come the events of all branches. -/
theorem flatten_fieldEvents (h : (Tree.node kind fields).isFormed = true) (path : Path) :
    (inDocumentOrder kind (fieldEvents (.node kind fields) path fields)).flatten =
      branchEvents (.node kind fields) path (placedIn fields) := by
  rw [fieldEvents_eq, flatten_inDocumentOrder (isFormed_node.1 h).1, branchEvents_placedIn]
  exact fun field hfield hdata => branchEvents_data h path hfield hdata

theorem eventsAt_identifier (name : String) (spot : Spot) :
    eventsAt spot (.node "Identifier" [("name", .text name)]) =
      if isBindingPlace spot.parent spot.field then [.mention spot.path name] else [] := by
  rw [eventsAt, if_pos rfl]
  rfl

theorem eventsAt_switch (h : (Tree.node "SwitchStatement" fields).isFormed = true) (spot : Spot) :
    eventsAt spot (.node "SwitchStatement" fields) =
      branchEvents (.node "SwitchStatement" fields) spot.path
          (outerBranches "SwitchStatement" fields) ++
        inScope (.node "SwitchStatement" fields) spot.path
          (branchEvents (.node "SwitchStatement" fields) spot.path
            (innerBranches "SwitchStatement" fields)) := by
  obtain ⟨value, items, rfl, hvalue, hitems⟩ := fields_of_switch (isFormed_node.1 h).1
  rw [eventsAt, if_neg (by decide), nodeEvents, if_pos rfl, fieldEvents_eq]
  simp [outerBranches, innerBranches, outerKeys, placedIn, List.lookup_cons]

theorem inDocumentOrder_function {α : Type} (params body generator async expression : List α) :
    (inDocumentOrder "FunctionDeclaration" [("params", params), ("body", body),
      ("generator", generator), ("async", async), ("expression", expression)]).flatten =
      params ++ body := by
  have hkeys : childFields.find? "FunctionDeclaration" = some ["id", "params", "body"] := rfl
  simp [inDocumentOrder, hkeys, List.lookup_cons]

theorem eventsAt_functionDeclaration
    (h : (Tree.node "FunctionDeclaration" fields).isFormed = true) (spot : Spot) :
    eventsAt spot (.node "FunctionDeclaration" fields) =
      branchEvents (.node "FunctionDeclaration" fields) spot.path
          (outerBranches "FunctionDeclaration" fields) ++
        inScope (.node "FunctionDeclaration" fields) spot.path
          (branchEvents (.node "FunctionDeclaration" fields) spot.path
            (innerBranches "FunctionDeclaration" fields)) := by
  obtain ⟨id, params, body, generator, async, expression, hfields, hid⟩ :=
    fields_of_functionDeclaration (isFormed_node.1 h).1
  have hdata : ∀ field ∈ fields, field.2.isData = true → branchEvents
      (.node "FunctionDeclaration" fields) spot.path (placed field.1 field.2) = [] :=
    fun _ hfield hdata => branchEvents_data h spot.path hfield hdata
  have hinner : branchEvents (.node "FunctionDeclaration" fields) spot.path
      (innerBranches "FunctionDeclaration" fields) =
      branchEvents (.node "FunctionDeclaration" fields) spot.path (placed "params" params) ++
        branchEvents (.node "FunctionDeclaration" fields) spot.path (placed "body" body) := by
    rw [innerBranches, ← branchEvents_placedIn]
    have hgenerator := hdata ("generator", .bool generator) (by simp [hfields]) rfl
    have hasync := hdata ("async", .bool async) (by simp [hfields]) rfl
    have hexpression := hdata ("expression", .bool expression) (by simp [hfields]) rfl
    generalize hnode : Tree.node "FunctionDeclaration" fields = t at *
    subst hfields
    simp [outerKeys, hgenerator, hasync, hexpression]
  have houter : outerBranches "FunctionDeclaration" fields = placed "id" id := by
    subst hfields
    simp [outerBranches, outerKeys, placedIn]
  have hdocument : (inDocumentOrder "FunctionDeclaration" ((fieldEvents
      (.node "FunctionDeclaration" fields) spot.path fields).filter
        fun part => part.1 ≠ "id")).flatten = branchEvents (.node "FunctionDeclaration" fields)
      spot.path (innerBranches "FunctionDeclaration" fields) := by
    rw [hinner, fieldEvents_eq]
    generalize hnode : Tree.node "FunctionDeclaration" fields = t at *
    subst hfields
    simp [inDocumentOrder_function]
  have hplaced : placedIn fields =
      placed "id" id ++ innerBranches "FunctionDeclaration" fields := by
    subst hfields
    simp [innerBranches, outerKeys, placedIn]
  have hget : (Tree.node "FunctionDeclaration" fields).get "id" = id := by
    subst hfields
    rfl
  rw [eventsAt, if_neg (by decide), nodeEvents, if_neg (by decide), has, hget, houter]
  rcases hid with rfl | hany
  · have hnone : branchEvents (.node "FunctionDeclaration" fields) spot.path
        (placed "id" .null) = [] := by
      rw [branchEvents, placed, List.flatMap_singleton]
      · exact eventsAt_of_not_node h (by rw [hplaced]; simp [placed]) rfl
      · simp
    rw [hnone, List.nil_append]
    simp only [isSet, decide_true, Bool.and_false, Bool.false_eq_true, if_false]
    rw [if_neg (by decide), flatten_fieldEvents h, hplaced, branchEvents_append, hnone,
      List.nil_append]
  · obtain ⟨kind', fields', rfl, hkind'⟩ := isAny_iff.1 hany
    obtain rfl := List.mem_singleton.1 hkind'
    have hformed : (Tree.node "Identifier" fields').isFormed = true :=
      (isFormed_node.1 h).2 ("id", .node "Identifier" fields') (by simp [hfields])
    obtain ⟨name, rfl⟩ := fields_of_identifier (isFormed_node.1 hformed).1
    have hmention : branchEvents (.node "FunctionDeclaration" fields) spot.path
        (placed "id" (.node "Identifier" [("name", .text name)])) =
        [.mention (spot.path ++ [⟨"id", 0⟩]) name] := by
      rw [branchEvents, placed, List.flatMap_singleton, eventsAt_identifier]
      · rfl
      · simp
    rw [hmention]
    simp only [isSet, decide_true, Bool.and_true, if_true]
    rw [hdocument]
    rfl

theorem outerBranches_nil (hswitch : kind ≠ "SwitchStatement")
    (hfunction : kind ≠ "FunctionDeclaration") : outerBranches kind fields = [] := by
  rw [outerBranches, outerKeys, if_neg hswitch, if_neg hfunction]
  simp [placedIn]

/-- The events of a formed node: those of the branches outside its scope, and then its
scope with those of the others. -/
theorem eventsAt_node (h : (Tree.node kind fields).isFormed = true) (hkind : kind ≠ "Identifier")
    (hprogram : kind ≠ "Program") (spot : Spot) :
    eventsAt spot (.node kind fields) =
      branchEvents (.node kind fields) spot.path (outerBranches kind fields) ++
        inScope (.node kind fields) spot.path
          (branchEvents (.node kind fields) spot.path (innerBranches kind fields)) := by
  by_cases hswitch : kind = "SwitchStatement"
  · subst hswitch
    exact eventsAt_switch h spot
  by_cases hfunction : kind = "FunctionDeclaration"
  · subst hfunction
    exact eventsAt_functionDeclaration h spot
  have hkeys : outerKeys kind = [] := by rw [outerKeys, if_neg hswitch, if_neg hfunction]
  have hinner : innerBranches kind fields = placedIn fields := by
    rw [innerBranches, hkeys]
    simp
  rw [eventsAt, if_neg hkind, nodeEvents, if_neg hswitch, outerBranches_nil hswitch hfunction,
    hinner, ← flatten_fieldEvents h]
  simp [hfunction, hprogram, branchEvents]

theorem placedIn_eq_append (h : isLaidOut kind fields = true) :
    placedIn fields = outerBranches kind fields ++ innerBranches kind fields := by
  by_cases hswitch : kind = "SwitchStatement"
  · subst hswitch
    obtain ⟨value, items, rfl, -⟩ := fields_of_switch h
    simp [outerBranches, innerBranches, outerKeys, placedIn]
  by_cases hfunction : kind = "FunctionDeclaration"
  · subst hfunction
    obtain ⟨id, params, body, generator, async, expression, rfl, -⟩ :=
      fields_of_functionDeclaration h
    simp [outerBranches, innerBranches, outerKeys, placedIn]
  rw [outerBranches, innerBranches, outerKeys, if_neg hswitch, if_neg hfunction]
  simp [placedIn]

theorem mem_of_outer (h : isLaidOut kind fields = true) {b : Step × Tree}
    (hb : b ∈ outerBranches kind fields) : b ∈ placedIn fields := by
  rw [placedIn_eq_append h]
  exact List.mem_append_left _ hb

theorem mem_of_inner (h : isLaidOut kind fields = true) {b : Step × Tree}
    (hb : b ∈ innerBranches kind fields) : b ∈ placedIn fields := by
  rw [placedIn_eq_append h]
  exact List.mem_append_right _ hb

/-- Entering the scope of a formed node declares names, and cannot fail. -/
theorem inScope_eq (h : (Tree.node kind fields).isFormed = true) (path : Path)
    (events : List Event) :
    (kind ∉ scopeKinds ∧ inScope (.node kind fields) path events = events) ∨
    (kind ∈ scopeKinds ∧ ∃ names, scopeNames (.node kind fields) = .ok names ∧
      inScope (.node kind fields) path events = .enter path names :: events ++ [.leave]) := by
  have hany : isAny scopeKinds (.node kind fields) = scopeKinds.contains kind := rfl
  rw [inScope, scopeNames?_eq, hany]
  by_cases hmem : kind ∈ scopeKinds
  · obtain ⟨names, hnames, -⟩ := (scopeNames_natural h hmem true).read_eq
    refine .inr ⟨hmem, names, hnames, ?_⟩
    simp [hmem, hnames, entering]
  · exact .inl ⟨hmem, by simp [hmem]⟩

end Node

/-! ## Mentions -/

@[simp] theorem mentions_enter (path : Path) (names : List String) (events : List Event) :
    mentions (.enter path names :: events) = mentions events := rfl

@[simp] theorem mentions_leave : mentions [.leave] = [] := rfl

theorem mentions_inScope {kind : String} {fields : List (String × Tree)}
    (h : (Tree.node kind fields).isFormed = true) (path : Path) (events : List Event) :
    mentions (inScope (.node kind fields) path events) = mentions events := by
  rcases inScope_eq h path events with ⟨-, heq⟩ | ⟨-, names, -, heq⟩
  · rw [heq]
  · rw [heq, List.cons_append, mentions_enter, mentions_append, mentions_leave, List.append_nil]

theorem mentions_branchEvents {kind : String} {fields : List (String × Tree)}
    (h : (Tree.node kind fields).isFormed = true) (path : Path) {bs : List (Step × Tree)}
    (hsub : ∀ b ∈ bs, b ∈ placedIn fields)
    (hbranches : ∀ b ∈ bs, b.2.isNode = true → ∀ spot,
      mentions (eventsAt spot b.2) = b.2.occurrencesAt spot) :
    mentions (branchEvents (.node kind fields) path bs) =
      bs.flatMap fun b => b.2.occurrencesAt (spotAt (.node kind fields) path b.1) := by
  rw [branchEvents, mentions, List.filterMap_flatMap]
  refine List.flatMap_congr fun b hb => ?_
  cases hnode : b.2.isNode with
  | true => exact hbranches b hb hnode _
  | false => rw [eventsAt_of_not_node h (hsub b hb) hnode, occurrencesAt_of_not_node hnode]; rfl

/-- The mentions of a formed part of a program are its occurrences. -/
theorem mentions_eventsAt {t : Tree} (h : t.isFormed = true) (hnode : t.isNode = true)
    (hprogram : t.kind? ≠ some "Program") (spot : Spot) :
    mentions (eventsAt spot t) = t.occurrencesAt spot := by
  induction t using branch_induction generalizing spot with
  | step t ih =>
      cases t with
      | node kind fields =>
          have hlaid := (isFormed_node.1 h).1
          by_cases hkind : kind = "Identifier"
          · subst hkind
            obtain ⟨name, rfl⟩ := fields_of_identifier hlaid
            rw [eventsAt_identifier, occurrencesAt_identifier]
            split <;> rfl
          · have hbranches := mentions_branchEvents h spot.path (fun b hb => hb)
              fun b hb hb' spot =>
                ih b hb (isFormed_branch h hb) hb' (kind_ne_program hlaid hb) spot
            rw [eventsAt_node h hkind (fun heq => hprogram (by rw [heq]; rfl)), mentions_append,
              mentions_inScope h, ← mentions_append, ← branchEvents_append,
              ← placedIn_eq_append hlaid, hbranches, occurrencesAt_node hlaid hkind]
      | _ => cases hnode

/-! ## Scopes -/

theorem enteredScopes_append (events events' : List Event) :
    enteredScopes (events ++ events') = enteredScopes events ++ enteredScopes events' :=
  List.filterMap_append

theorem scopes_below {kind : String} {fields : List (String × Tree)}
    (h : (Tree.node kind fields).isFormed = true) (path : Path)
    (hbranches : ∀ b ∈ placedIn fields, b.2.isNode = true → ∀ spot,
      (enteredScopes (eventsAt spot b.2)).Nodup ∧
        ∀ p ∈ enteredScopes (eventsAt spot b.2), spot.path <+: p) :
    (enteredScopes (branchEvents (.node kind fields) path (placedIn fields))).Nodup ∧
      ∀ p ∈ enteredScopes (branchEvents (.node kind fields) path (placedIn fields)),
        path <+: p ∧ p ≠ path := by
  rw [branchEvents, enteredScopes, List.filterMap_flatMap]
  refine paths_nodup_below (steps_nodup (isFormed_node.1 h).1) path _ fun b hb => ?_
  cases hnode : b.2.isNode with
  | true => exact hbranches b hb hnode _
  | false =>
      rw [eventsAt_of_not_node h hb hnode]
      exact ⟨List.nodup_nil, fun p hp => absurd hp List.not_mem_nil⟩

/-- No two scopes of a formed part of a program belong to the same node. -/
theorem enteredScopes_nodup {t : Tree} (h : t.isFormed = true) (hnode : t.isNode = true)
    (hprogram : t.kind? ≠ some "Program") (spot : Spot) :
    (enteredScopes (eventsAt spot t)).Nodup ∧
      ∀ p ∈ enteredScopes (eventsAt spot t), spot.path <+: p := by
  induction t using branch_induction generalizing spot with
  | step t ih =>
      cases t with
      | node kind fields =>
          have hlaid := (isFormed_node.1 h).1
          by_cases hkind : kind = "Identifier"
          · subst hkind
            obtain ⟨name, rfl⟩ := fields_of_identifier hlaid
            have hnone : enteredScopes (eventsAt spot (.node "Identifier" [("name", .text name)])) =
                [] := by
              rw [eventsAt_identifier]
              split <;> rfl
            rw [hnone]
            exact ⟨List.nodup_nil, fun p hp => absurd hp List.not_mem_nil⟩
          · obtain ⟨hnodup, hbelow⟩ := scopes_below h spot.path fun b hb hb' spot =>
              ih b hb (isFormed_branch h hb) hb' (kind_ne_program hlaid hb) spot
            rw [eventsAt_node h hkind fun heq => hprogram (by rw [heq]; rfl)]
            rw [placedIn_eq_append hlaid, branchEvents_append, enteredScopes_append] at hnodup hbelow
            rcases inScope_eq h spot.path (branchEvents (.node kind fields) spot.path
              (innerBranches kind fields)) with ⟨-, heq⟩ | ⟨-, names, -, heq⟩
            · rw [heq, enteredScopes_append]
              exact ⟨hnodup, fun p hp => (hbelow p hp).1⟩
            · have hscopes : enteredScopes (.enter spot.path names ::
                  branchEvents (.node kind fields) spot.path (innerBranches kind fields) ++
                    [.leave]) = spot.path :: enteredScopes (branchEvents (.node kind fields)
                      spot.path (innerBranches kind fields)) := by
                rw [List.cons_append, enteredScopes, List.filterMap_cons, List.filterMap_append]
                simp [Event.scope?, enteredScopes]
              rw [heq, enteredScopes_append, hscopes]
              refine ⟨List.nodup_middle.2 (List.nodup_cons.2 ⟨?_, hnodup⟩), fun p hp => ?_⟩
              · exact fun hmem => (hbelow _ hmem).2 rfl
              · rcases List.mem_append.1 hp with hp | hp
                · exact (hbelow p (List.mem_append_left _ hp)).1
                · rcases List.mem_cons.1 hp with rfl | hp
                  · exact List.prefix_refl _
                  · exact (hbelow p (List.mem_append_right _ hp)).1
      | _ => cases hnode

/-! ## Nesting -/

/-- What a node that differs outside its scope only declares and mentions. -/
theorem inner_occurrences {kind : String} {fields fields' : List (String × Tree)}
    (h' : isLaidOut kind fields' = true) (hkind : kind ≠ "Identifier") (path : Path)
    (hcomputed : (Tree.node kind fields').has "computed" = (Tree.node kind fields).has "computed")
    (hinner : innerBranches kind fields' = innerBranches kind fields)
    (houter : ∀ b ∈ outerBranches kind fields', b.2.occurrencesAt
      (spotAt (.node kind fields') path b.1) = []) :
    (Tree.node kind fields').occurrencesAt ⟨none, none, path⟩ =
      (innerBranches kind fields).flatMap fun b =>
        b.2.occurrencesAt (spotAt (.node kind fields) path b.1) := by
  rw [occurrencesAt_node h' hkind, placedIn_eq_append h', List.flatMap_append, hinner]
  have hnone : ((outerBranches kind fields').flatMap fun b =>
      b.2.occurrencesAt (spotAt (.node kind fields') path b.1)) = [] :=
    List.flatMap_eq_nil_iff.2 houter
  rw [hnone, List.nil_append]
  refine List.flatMap_congr fun b _ => occurrencesAt_congr ?_ ?_ _
  · rfl
  · simp only [spotAt, isBindingPlace, kind?, hcomputed]

/-- The names in the scope of a formed node are mentioned inside it. -/
theorem scopeNames_inner {kind : String} {fields : List (String × Tree)}
    (h : (Tree.node kind fields).isFormed = true) (hmem : kind ∈ scopeKinds) {names : List String}
    (hnames : scopeNames (.node kind fields) = .ok names) (path : Path) {name : String}
    (hname : name ∈ names) :
    name ∈ ((innerBranches kind fields).flatMap fun b =>
      b.2.occurrencesAt (spotAt (.node kind fields) path b.1)).map Prod.snd := by
  have hkind : kind ≠ "Identifier" := by rintro rfl; simp [scopeKinds, functionKinds] at hmem
  -- Names are not read outside the scope, so what stands there may as well mention nothing.
  obtain ⟨fields', h', hsame, hcomputed, hinner, houter⟩ : ∃ fields',
      (Tree.node kind fields').isFormed = true ∧
      scopeNames (.node kind fields') = scopeNames (.node kind fields) ∧
      (Tree.node kind fields').has "computed" = (Tree.node kind fields).has "computed" ∧
      innerBranches kind fields' = innerBranches kind fields ∧
      ∀ b ∈ outerBranches kind fields', b.2.occurrencesAt
        (spotAt (.node kind fields') path b.1) = [] := by
    have hlaid := (isFormed_node.1 h).1
    by_cases hswitch : kind = "SwitchStatement"
    · subst hswitch
      obtain ⟨value, items, rfl, -⟩ := fields_of_switch hlaid
      refine ⟨[("discriminant", .node "Super" []), ("cases", .list items)], ?_, rfl, rfl, ?_, ?_⟩
      · exact isFormed_head rfl h rfl rfl
      · simp [innerBranches, outerKeys]
      · intro b hb
        rw [List.mem_singleton.1 hb]
        rfl
    by_cases hfunction : kind = "FunctionDeclaration"
    · subst hfunction
      obtain ⟨id, params, body, generator, async, expression, rfl, -⟩ :=
        fields_of_functionDeclaration hlaid
      refine ⟨[("id", .null), ("params", params), ("body", body), ("generator", .bool generator),
        ("async", .bool async), ("expression", .bool expression)], ?_, rfl, rfl, ?_, ?_⟩
      · exact isFormed_head rfl h rfl rfl
      · simp [innerBranches, outerKeys]
      · intro b hb
        rw [List.mem_singleton.1 hb]
        rfl
    · refine ⟨fields, h, rfl, rfl, rfl, ?_⟩
      rw [outerBranches_nil hswitch hfunction]
      exact fun b hb => absurd hb List.not_mem_nil
  rw [← inner_occurrences (isFormed_node.1 h').1 hkind path hcomputed hinner houter]
  exact (scopeNames_natural h' hmem true).mem_occurrences h' (hsame.trans hnames) _ rfl
    hname

theorem nested_flatMap {bs : List (Step × Tree)} {part : Step × Tree → List Event}
    (h : ∀ b ∈ bs, Nested (part b)) : Nested (bs.flatMap part) := by
  induction bs with
  | nil => exact .nil
  | cons b rest ih =>
      rw [List.flatMap_cons]
      exact .append (h b List.mem_cons_self) (ih fun b' hb' => h b' (List.mem_cons_of_mem _ hb'))

/-- The events of a formed part of a program are nested. -/
theorem nested_eventsAt {t : Tree} (h : t.isFormed = true) (hnode : t.isNode = true)
    (hprogram : t.kind? ≠ some "Program") (spot : Spot) : Nested (eventsAt spot t) := by
  induction t using branch_induction generalizing spot with
  | step t ih =>
      cases t with
      | node kind fields =>
          have hlaid := (isFormed_node.1 h).1
          by_cases hkind : kind = "Identifier"
          · subst hkind
            obtain ⟨name, rfl⟩ := fields_of_identifier hlaid
            rw [eventsAt_identifier]
            split
            · exact .mention ..
            · exact .nil
          · have hparts : ∀ b ∈ placedIn fields,
                Nested (eventsAt (spotAt (.node kind fields) spot.path b.1) b.2) := by
              intro b hb
              cases hnode : b.2.isNode with
              | true => exact ih b hb (isFormed_branch h hb) hnode (kind_ne_program hlaid hb) _
              | false => rw [eventsAt_of_not_node h hb hnode]; exact .nil
            have hinside : ∀ b ∈ innerBranches kind fields, b ∈ placedIn fields :=
              fun b => mem_of_inner hlaid
            have houter := nested_flatMap fun b hb => hparts b (mem_of_outer hlaid hb)
            have hinner := nested_flatMap fun b hb => hparts b (hinside b hb)
            rw [eventsAt_node h hkind fun heq => hprogram (by rw [heq]; rfl)]
            refine .append houter ?_
            rcases inScope_eq h spot.path (branchEvents (.node kind fields) spot.path
              (innerBranches kind fields)) with ⟨-, heq⟩ | ⟨hmem, names, hnames, heq⟩
            · rw [heq]
              exact hinner
            · rw [heq]
              refine .scope hinner fun name hname => ?_
              rw [mentionNames_eq, mentions_branchEvents h spot.path hinside fun b hb hb' spot =>
                mentions_eventsAt (isFormed_branch h (hinside b hb)) hb'
                  (kind_ne_program hlaid (hinside b hb)) spot]
              exact scopeNames_inner h hmem hnames spot.path hname
      | _ => cases hnode

theorem nested_branchEvents {kind : String} {fields : List (String × Tree)}
    (h : (Tree.node kind fields).isFormed = true) (here : Path)
    {bs : List (Step × Tree)} (hsub : ∀ b ∈ bs, b ∈ placedIn fields) :
    Nested (branchEvents (.node kind fields) here bs) := by
  refine nested_flatMap fun b hb => ?_
  cases hnode : b.2.isNode with
  | true =>
      exact nested_eventsAt (isFormed_branch h (hsub b hb)) hnode
        (kind_ne_program (isFormed_node.1 h).1 (hsub b hb)) _
  | false => rw [eventsAt_of_not_node h (hsub b hb) hnode]; exact .nil

/-! ## Renaming -/

/-- An event with its names renamed. -/
def Event.rename (f : String → String) : Event → Event
  | .declare names => .declare (names.map f)
  | .enter scope names => .enter scope (names.map f)
  | .mention path name => .mention path (f name)
  | .leave => .leave
  | .broken fault => .broken fault

theorem inScope_renameAt {kind : String} {fields : List (String × Tree)}
    (h : (Tree.node kind fields).isFormed = true) (f : String → String) (binding : Bool)
    (path : Path) (events : List Event) :
    inScope (renameAt f binding (.node kind fields)) path (events.map (Event.rename f)) =
      (inScope (.node kind fields) path events).map (Event.rename f) := by
  rw [inScope, scopeNames?_eq, inScope, scopeNames?_eq, isAny, isAny, kind?_renameAt]
  have hany : (Tree.node kind fields).kind?.any scopeKinds.contains =
    scopeKinds.contains kind := rfl
  rw [hany]
  by_cases hmem : kind ∈ scopeKinds
  · obtain ⟨names, hnames, hrename⟩ := (scopeNames_natural h hmem binding).read_eq
    simp [hmem, hnames, hrename f, entering, Event.rename]
  · simp [hmem]

theorem outerBranches_renameAt (kind : String) (f : String → String) (binding : String → Bool)
    (fields : List (String × Tree)) :
    outerBranches kind (fields.map fun field =>
        (field.1, renameIn f (binding field.1) field.2)) =
      (outerBranches kind fields).map fun b => (b.1, renameAt f (binding b.1.field) b.2) := by
  rw [outerBranches, List.filter_map, placedIn_renameAt]
  rfl

theorem innerBranches_renameAt (kind : String) (f : String → String) (binding : String → Bool)
    (fields : List (String × Tree)) :
    innerBranches kind (fields.map fun field =>
        (field.1, renameIn f (binding field.1) field.2)) =
      (innerBranches kind fields).map fun b => (b.1, renameAt f (binding b.1.field) b.2) := by
  rw [innerBranches, List.filter_map, placedIn_renameAt]
  rfl

theorem branchEvents_renameAt {kind : String} {fields : List (String × Tree)}
    (h : (Tree.node kind fields).isFormed = true) (hkind : kind ≠ "Identifier")
    (f : String → String) (binding : Bool) (path : Path) {bs : List (Step × Tree)}
    (hsub : ∀ b ∈ bs, b ∈ placedIn fields)
    (hbranches : ∀ b ∈ bs, b.2.isNode = true → ∀ spot spot' : Spot, spot'.path = spot.path →
      isBindingPlace spot'.parent spot'.field = isBindingPlace spot.parent spot.field →
      eventsAt spot' (renameAt f (isBindingPlace spot.parent spot.field) b.2) =
        (eventsAt spot b.2).map (Event.rename f)) :
    branchEvents (renameAt f binding (.node kind fields)) path
        (bs.map fun b => (b.1, renameAt f (Tree.names (.node kind fields) b.1.field) b.2)) =
      (branchEvents (.node kind fields) path bs).map (Event.rename f) := by
  have hformed : (renameAt f binding (.node kind fields)).isFormed = true :=
    isFormed_respellAt h binding []
  have hplaces := isBindingPlace_respellAt (fun _ name => f name) hkind binding [] fields
  change ∀ field, isBindingPlace (some (renameAt f binding (.node kind fields))) field = _
    at hplaces
  have hplaced : placedIn (fields.map fun field =>
      (field.1, renameIn f (Tree.names (.node kind fields) field.1) field.2)) = _ :=
    placedIn_renameAt f (Tree.names (.node kind fields)) fields
  rw [renameAt_node hkind] at hformed hplaces ⊢
  rw [branchEvents, branchEvents, List.flatMap_map, List.map_flatMap]
  refine List.flatMap_congr fun b hb => ?_
  cases hnode : b.2.isNode with
  | true =>
      exact hbranches b hb hnode (spotAt (.node kind fields) path b.1) _ rfl
        (hplaces (some b.1.field))
  | false =>
      rw [eventsAt_of_not_node h (hsub b hb) hnode]
      refine eventsAt_of_not_node hformed ?_ ?_
      · rw [hplaced]
        exact List.mem_map.2 ⟨b, hsub b hb, rfl⟩
      · rw [isNode, kind?_renameAt]
        exact hnode

/-- A renaming of a formed part of a program renames its events. -/
theorem eventsAt_renameAt {t : Tree} (h : t.isFormed = true) (hnode : t.isNode = true)
    (hprogram : t.kind? ≠ some "Program") (f : String → String) {spot spot' : Spot}
    (hpath : spot'.path = spot.path)
    (hplace : isBindingPlace spot'.parent spot'.field = isBindingPlace spot.parent spot.field) :
    eventsAt spot' (renameAt f (isBindingPlace spot.parent spot.field) t) =
      (eventsAt spot t).map (Event.rename f) := by
  induction t using branch_induction generalizing spot spot' with
  | step t ih =>
      cases t with
      | node kind fields =>
          have hlaid := (isFormed_node.1 h).1
          by_cases hkind : kind = "Identifier"
          · subst hkind
            obtain ⟨name, rfl⟩ := fields_of_identifier hlaid
            rw [renameAt, respellAt_identifier, eventsAt_identifier, eventsAt_identifier, hplace,
              hpath]
            cases isBindingPlace spot.parent spot.field <;> rfl
          · have hformed : (renameAt f (isBindingPlace spot.parent spot.field)
                (.node kind fields)).isFormed = true := isFormed_respellAt h _ []
            have hbranches := fun (bs : List (Step × Tree)) (hsub : ∀ b ∈ bs, b ∈ placedIn fields) =>
              branchEvents_renameAt h hkind f (isBindingPlace spot.parent spot.field) spot.path hsub
                fun b hb hb' _ _ => ih b (hsub b hb) (isFormed_branch h (hsub b hb)) hb'
                  (kind_ne_program hlaid (hsub b hb))
            have houter := hbranches (outerBranches kind fields) fun b => mem_of_outer hlaid
            have hinner := hbranches (innerBranches kind fields) fun b => mem_of_inner hlaid
            have hscope := inScope_renameAt h f (isBindingPlace spot.parent spot.field) spot.path
              (branchEvents (.node kind fields) spot.path (innerBranches kind fields))
            have hprogram' : kind ≠ "Program" := fun heq => hprogram (by rw [heq]; rfl)
            rw [renameAt_node hkind] at hformed houter hinner hscope ⊢
            rw [eventsAt_node hformed hkind hprogram', eventsAt_node h hkind hprogram', hpath,
              outerBranches_renameAt, innerBranches_renameAt, houter, hinner, hscope,
              List.map_append]
      | _ => cases hnode

/-! ## Whole programs -/

/-- The events of a program: its names are declared, and then follow the events of its
statements. -/
theorem events_program {fields : List (String × Tree)}
    (h : (Tree.node "Program" fields).isFormed = true) :
    ∃ names, programNames (.node "Program" fields) = .ok names ∧
      events (.node "Program" fields) =
        .declare names :: branchEvents (.node "Program" fields) [] (placedIn fields) := by
  obtain ⟨names, hnames, -⟩ := (programNames_natural h true).read_eq
  refine ⟨names, hnames, ?_⟩
  rw [events, eventsAt, if_neg (by decide), nodeEvents, if_neg (by decide)]
  simp only [String.reduceEq, decide_false, Bool.false_and, Bool.false_eq_true, if_false, if_true,
    hnames]
  rw [flatten_fieldEvents h]

theorem exists_fields_of_isProgram {t : Tree} (h : t.isProgram = true) :
    ∃ fields, t = .node "Program" fields ∧ (Tree.node "Program" fields).isFormed = true := by
  rw [isProgram, Bool.and_eq_true] at h
  cases t with
  | node kind fields =>
      have hkind : kind = "Program" := by simpa [isKind, kind?] using h.1
      subst hkind
      exact ⟨fields, rfl, h.2⟩
  | _ => simp [isKind, kind?] at h

/-- What the resolver relies on when it follows a program. -/
structure Regular (t : Tree) (names : List String) (body : List Event) : Prop where
  /-- The names of the program are declared first. -/
  events_eq : events t = .declare names :: body
  /-- All other scopes are nested in that of the program. -/
  nested : Nested body
  /-- The mentions are the occurrences of the tree. -/
  mentions_eq : mentions body = t.occurrences
  /-- The names of the program are mentioned. -/
  names_mentioned : ∀ n ∈ names, n ∈ mentionNames body
  /-- No two scopes belong to the same node, and none to the root. -/
  scopes_nodup : ([] :: enteredScopes body).Nodup

/-- The events of a program are as the resolver relies on. -/
theorem regular_events {t : Tree} (h : t.isProgram = true) : ∃ names body, Regular t names body := by
  obtain ⟨fields, rfl, hformed⟩ := exists_fields_of_isProgram h
  have hlaid := (isFormed_node.1 hformed).1
  obtain ⟨names, hnames, hevents⟩ := events_program hformed
  have hmentions : mentions (branchEvents (.node "Program" fields) [] (placedIn fields)) =
      (Tree.node "Program" fields).occurrences := by
    rw [mentions_branchEvents hformed [] (fun b hb => hb) fun b hb hb' spot =>
      mentions_eventsAt (isFormed_branch hformed hb) hb' (kind_ne_program hlaid hb) spot]
    exact (occurrencesAt_node hlaid (by decide) ⟨none, none, []⟩).symm
  obtain ⟨hnodup, hbelow⟩ := scopes_below hformed [] fun b hb hb' spot =>
    enteredScopes_nodup (isFormed_branch hformed hb) hb' (kind_ne_program hlaid hb) spot
  refine ⟨names, _, hevents, nested_branchEvents hformed [] fun b hb => hb, hmentions,
    fun n hn => ?_, ?_⟩
  · rw [mentionNames_eq, hmentions]
    exact (programNames_natural hformed true).mem_occurrences hformed hnames ⟨none, none, []⟩ rfl hn
  · exact List.nodup_cons.2 ⟨fun hmem => (hbelow _ hmem).2 rfl, hnodup⟩

/-- A renaming of a program renames its events. -/
theorem events_rename {t : Tree} (h : t.isProgram = true) (f : String → String) :
    events (t.renamed f) = (events t).map (Event.rename f) := by
  obtain ⟨fields, rfl, hformed⟩ := exists_fields_of_isProgram h
  have hlaid := (isFormed_node.1 hformed).1
  have hrename : (Tree.node "Program" fields).renamed f = renameAt f true (.node "Program" fields) :=
    rfl
  have hformed' : (renameAt f true (.node "Program" fields)).isFormed = true :=
    isFormed_respellAt hformed true []
  have hbody := branchEvents_renameAt hformed (by decide) f true [] (fun b hb => hb)
    fun b hb hb' _ _ => eventsAt_renameAt (isFormed_branch hformed hb) hb'
      (kind_ne_program hlaid hb) f
  obtain ⟨names, hnames, hevents⟩ := events_program hformed
  have hnames' : programNames (renameAt f true (.node "Program" fields)) = .ok (names.map f) := by
    obtain ⟨found, hfound, hrename⟩ := (programNames_natural hformed true).read_eq
    rw [hrename f, Except.ok.inj (hfound.symm.trans hnames)]
  rw [hrename, hevents]
  rw [renameAt_node (by decide)] at hformed' hbody hnames' ⊢
  obtain ⟨names', hnames'', hevents'⟩ := events_program hformed'
  rw [hevents', placedIn_renameAt, hbody, List.map_cons,
    Except.ok.inj (hnames''.symm.trans hnames')]
  rfl

end NameRecovery.Scope
