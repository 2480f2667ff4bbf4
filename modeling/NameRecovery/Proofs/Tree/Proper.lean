import NameRecovery.Proofs.Table
import NameRecovery.Proofs.Tree.Occurrence

/-!
# Proper trees

Trees need not come from the parser.  A tree is proper when no node has two fields of
one name and every identifier has a name; its nodes may be of any kind, known or not, and
may have fields that no walk enters.

* `Tree.isProper` — is the tree proper?
* `Tree.visitedFields` — the fields of a node that a walk enters, in document order;
* `Tree.visitsAt_eq` — the nodes met in a node are the node itself and those of these
  fields, whatever its kind;
* `Tree.proper_paths_nodup` — no two nodes met in a proper tree have the same path.
-/

namespace NameRecovery.Tree

mutual

/-- Has no node two fields of one name, and has every identifier a name? -/
def isProper : Tree → Bool
  | .node kind fields =>
    decide (fields.map Prod.fst).Nodup &&
      (kind != "Identifier" || ((fields.lookup "name").bind text?).isSome) &&
        areProperFields fields
  | .list items => areProper items
  | _ => true

/-- Are the values of the fields proper? -/
def areProperFields : List (String × Tree) → Bool
  | [] => true
  | (_, value) :: rest => isProper value && areProperFields rest

/-- Are the items of a list proper? -/
def areProper : List Tree → Bool
  | [] => true
  | item :: rest => isProper item && areProper rest

end

theorem areProperFields_iff {fields : List (String × Tree)} :
    areProperFields fields = true ↔ ∀ f ∈ fields, f.2.isProper = true := by
  induction fields with
  | nil => simp [areProperFields]
  | cons field rest ih => simp [areProperFields, ih]

theorem areProper_iff {items : List Tree} :
    areProper items = true ↔ ∀ t ∈ items, t.isProper = true := by
  induction items with
  | nil => simp [areProper]
  | cons item rest ih => simp [areProper, ih]

theorem isProper_placed {key : String} {t : Tree} :
    t.isProper = true ↔ ∀ b ∈ placed key t, b.2.isProper = true := by
  by_cases hlist : ∃ items, t = .list items
  · obtain ⟨items, rfl⟩ := hlist
    rw [isProper, areProper_iff]
    constructor
    · intro h b hb
      obtain ⟨item, hitem, rfl⟩ := List.mem_map.1 hb
      exact h _ (List.fst_mem_of_mem_zipIdx hitem)
    · intro h item hitem
      obtain ⟨b, hb, rfl⟩ := @exists_placed_of_mem key items item hitem
      exact h b hb
  · rw [placed_of_ne_list fun items heq => hlist ⟨items, heq⟩]
    simp

/-- A node is proper when its fields have different names, it has a name if it is an
identifier, and its branches are proper. -/
theorem isProper_node {kind : String} {fields : List (String × Tree)} :
    (Tree.node kind fields).isProper = true ↔ (fields.map Prod.fst).Nodup ∧
      (kind = "Identifier" → ∃ name, fields.lookup "name" = some (.text name)) ∧
        ∀ b ∈ placedIn fields, b.2.isProper = true := by
  have hname : (kind != "Identifier" || ((fields.lookup "name").bind text?).isSome) = true ↔
      (kind = "Identifier" → ∃ name, fields.lookup "name" = some (.text name)) := by
    cases fields.lookup "name" with
    | none => simp
    | some value => cases value <;> simp [text?]
  have hbranches : (∀ f ∈ fields, f.2.isProper = true) ↔
      ∀ b ∈ placedIn fields, b.2.isProper = true := by
    constructor
    · intro h b hb
      obtain ⟨field, hfield, hb⟩ := List.mem_flatMap.1 hb
      exact isProper_placed.1 (h field hfield) b hb
    · intro h field hfield
      exact isProper_placed.2 fun b hb => h b (List.mem_flatMap.2 ⟨field, hfield, hb⟩)
  rw [isProper, Bool.and_eq_true, Bool.and_eq_true, decide_eq_true_eq, hname,
    areProperFields_iff, hbranches, and_assoc]

/-- Formed trees are proper. -/
theorem isProper_of_isFormed (t : Tree) (h : t.isFormed = true) : t.isProper = true := by
  -- The items of a list are no branches of it, hence the induction on the size.
  induction hsize : sizeOf t using Nat.strongRecOn generalizing t with
  | ind n ih =>
      subst hsize
      cases t with
      | node kind fields =>
          have hlaid := (isFormed_node.1 h).1
          refine isProper_node.2 ⟨keys_nodup hlaid, ?_, ?_⟩
          · rintro rfl
            obtain ⟨name, rfl⟩ := fields_of_identifier hlaid
            exact ⟨name, rfl⟩
          · intro b hb
            exact ih _ (sizeOf_branch hb) b.2 (isFormed_branch h hb) rfl
      | list items =>
          rw [isProper, areProper_iff]
          intro item hitem
          have hlt := List.sizeOf_lt_of_mem hitem
          refine ih _ ?_ item (isFormed_list.1 h item hitem) rfl
          simp only [Tree.list.sizeOf_spec]
          omega
      | _ => rfl

/-! ## Fields that are visited -/

/-- The fields of a node that a walk enters, in document order: those that the kind has
children in, or all of them if the kind is not known. -/
def visitedFields (kind : String) (fields : List (String × Tree)) : List (String × Tree) :=
  match childFields.find? kind with
  | some keys => keys.filterMap fun key => (fields.lookup key).map fun value => (key, value)
  | none => fields

/-- Does a walk enter the field of a node of this kind? -/
def isVisitedField (kind key : String) : Bool :=
  match childFields.find? kind with
  | some keys => keys.contains key
  | none => true

theorem inDocumentOrder_map {α : Type} (kind : String) (fields : List (String × Tree))
    (value : String × Tree → α) :
    inDocumentOrder kind (fields.map fun field => (field.1, value field)) =
      (visitedFields kind fields).map value := by
  rw [inDocumentOrder, visitedFields]
  cases childFields.find? kind with
  | none => simp
  | some keys =>
      simp only [List.map_filterMap]
      refine List.filterMap_congr fun key _ => ?_
      induction fields with
      | nil => rfl
      | cons field rest ih =>
          obtain ⟨k, t⟩ := field
          rw [List.map_cons, List.lookup_cons, List.lookup_cons]
          by_cases hkey : key = k
          · subst hkey
            simp
          · simpa [beq_false_of_ne hkey] using ih

theorem childFields_nodup : ∀ entry ∈ childFields, entry.2.Nodup := by
  decide +kernel

/-- The fields entered are fields of the node, and such that are entered. -/
theorem mem_of_visitedFields {kind : String} {fields : List (String × Tree)}
    {field : String × Tree} (h : field ∈ visitedFields kind fields) :
    field ∈ fields ∧ isVisitedField kind field.1 = true := by
  rw [visitedFields] at h
  rw [isVisitedField]
  cases hfind : childFields.find? kind with
  | none =>
      rw [hfind] at h
      exact ⟨h, rfl⟩
  | some keys =>
      rw [hfind] at h
      simp only [List.mem_filterMap, Option.map_eq_some_iff] at h
      obtain ⟨key, hkey, value, hlookup, rfl⟩ := h
      obtain ⟨l₁, l₂, heq, -⟩ := List.lookup_eq_some_iff.1 hlookup
      exact ⟨by simp [heq], List.contains_iff_mem.2 hkey⟩

theorem mem_visitedFields {kind : String} {fields : List (String × Tree)}
    (hkeys : (fields.map Prod.fst).Nodup) {field : String × Tree} :
    field ∈ visitedFields kind fields ↔ field ∈ fields ∧ isVisitedField kind field.1 = true := by
  refine ⟨mem_of_visitedFields, ?_⟩
  rw [visitedFields, isVisitedField]
  cases childFields.find? kind with
  | none => simp
  | some keys =>
      simp only [List.mem_filterMap, Option.map_eq_some_iff, List.contains_iff_mem]
      rintro ⟨hfield, hkey⟩
      exact ⟨field.1, hkey, field.2, lookup_of_mem hkeys hfield, rfl⟩

/-- The fields entered stand in the order of the table. -/
theorem visitedFields_keys_sublist {kind : String} {keys : List String}
    (h : childFields.find? kind = some keys) (fields : List (String × Tree)) :
    ((visitedFields kind fields).map Prod.fst).Sublist keys := by
  rw [visitedFields, h]
  dsimp only
  clear h
  induction keys with
  | nil => exact List.Sublist.slnil
  | cons key rest ih =>
      rw [List.filterMap_cons]
      cases fields.lookup key with
      | none => exact ih.cons _
      | some value => exact ih.cons_cons _

theorem visitedFields_keys_nodup (kind : String) {fields : List (String × Tree)}
    (hkeys : (fields.map Prod.fst).Nodup) :
    ((visitedFields kind fields).map Prod.fst).Nodup := by
  cases hfind : childFields.find? kind with
  | none => rwa [visitedFields, hfind]
  | some keys =>
      have hnodup : keys.Nodup := childFields_nodup (kind, keys) (Table.mem_of_find? hfind)
      exact hnodup.sublist (visitedFields_keys_sublist hfind fields)

/-! ## The nodes that are met -/

/-- The branches of a node that a walk enters. -/
def visitedBranches (kind : String) (fields : List (String × Tree)) : List (Step × Tree) :=
  placedIn (visitedFields kind fields)

/-- A node is visited first, and then the nodes of the branches that are entered,
whatever its kind. -/
theorem visitsAt_eq (kind : String) (fields : List (String × Tree)) (spot : Spot) :
    (Tree.node kind fields).visitsAt spot =
      ⟨.node kind fields, spot.parent, spot.field, spot.path⟩ ::
        (visitedBranches kind fields).flatMap fun b =>
          visitsAt (spotAt (.node kind fields) spot.path b.1) b.2 := by
  rw [visitsAt, fieldVisits_eq, inDocumentOrder_map kind fields, visitedBranches,
    ← flatMap_placedIn, List.flatMap_def]

/-- The branches entered are branches of the node, and in such fields. -/
theorem mem_of_visitedBranches {kind : String} {fields : List (String × Tree)} {b : Step × Tree}
    (h : b ∈ visitedBranches kind fields) :
    b ∈ placedIn fields ∧ isVisitedField kind b.1.field = true := by
  obtain ⟨field, hfield, hb⟩ := List.mem_flatMap.1 h
  obtain ⟨hmem, hvisited⟩ := mem_of_visitedFields hfield
  rw [placed_field hb]
  exact ⟨List.mem_flatMap.2 ⟨field, hmem, hb⟩, hvisited⟩

theorem mem_visitedBranches {kind : String} {fields : List (String × Tree)}
    (hkeys : (fields.map Prod.fst).Nodup) {b : Step × Tree} :
    b ∈ visitedBranches kind fields ↔
      b ∈ placedIn fields ∧ isVisitedField kind b.1.field = true := by
  refine ⟨mem_of_visitedBranches, ?_⟩
  rintro ⟨hb, hvisited⟩
  obtain ⟨field, hfield, hb⟩ := List.mem_flatMap.1 hb
  rw [placed_field hb] at hvisited
  exact List.mem_flatMap.2 ⟨field, (mem_visitedFields hkeys).2 ⟨hfield, hvisited⟩, hb⟩

/-- An identifier has no children. -/
theorem visitedBranches_identifier (fields : List (String × Tree)) :
    visitedBranches "Identifier" fields = [] := rfl

/-- The paths of the nodes met in a value lead through its place. -/
theorem visitsAt_below {t : Tree} {spot : Spot} {p : Path}
    (hp : p ∈ (t.visitsAt spot).map Visit.path) : spot.path <+: p := by
  induction t using branch_induction generalizing spot with
  | step t ih =>
      cases t with
      | node kind fields =>
          rw [visitsAt_eq, List.map_cons, List.map_flatMap] at hp
          rcases List.mem_cons.1 hp with rfl | hp
          · exact List.prefix_refl _
          · obtain ⟨b, hb, hp⟩ := List.mem_flatMap.1 hp
            have hbelow := ih b (mem_of_visitedBranches hb).1 hp
            exact (List.prefix_append _ _).trans hbelow
      | _ => exact absurd hp List.not_mem_nil

/-- The paths of the nodes met in a value are all different if no such node has two fields of
one name. -/
theorem visitsAt_paths_nodup {t : Tree} {spot : Spot}
    (h : ∀ visit ∈ t.visitsAt spot, ∀ kind fields, visit.node = .node kind fields →
      (fields.map Prod.fst).Nodup) : ((t.visitsAt spot).map Visit.path).Nodup := by
  induction t using branch_induction generalizing spot with
  | step t ih =>
      cases t with
      | node kind fields =>
          rw [visitsAt_eq] at h ⊢
          obtain ⟨hroot, hrest⟩ := List.forall_mem_cons.1 h
          have hsteps :=
            placedIn_steps_nodup (visitedFields_keys_nodup kind (hroot kind fields rfl))
          rw [List.map_cons, List.map_flatMap]
          obtain ⟨hnodup, hbelow⟩ := paths_nodup_below hsteps spot.path
            (fun b => (visitsAt (spotAt (.node kind fields) spot.path b.1) b.2).map Visit.path)
            fun b hb => by
              refine ⟨ih b (mem_of_visitedBranches hb).1 fun visit hvisit => ?_,
                fun p hp => visitsAt_below hp⟩
              exact hrest visit (List.mem_flatMap.2 ⟨b, hb, hvisit⟩)
          exact List.nodup_cons.2 ⟨fun hmem => (hbelow _ hmem).2 rfl, hnodup⟩
      | _ => exact List.nodup_nil

/-- The nodes met in a proper value are proper. -/
theorem isProper_visit {t : Tree} (h : t.isProper = true) {spot : Spot} {visit : Visit}
    (hvisit : visit ∈ t.visitsAt spot) : visit.node.isProper = true := by
  induction t using branch_induction generalizing spot with
  | step t ih =>
      cases t with
      | node kind fields =>
          obtain ⟨-, -, hbranches⟩ := isProper_node.1 h
          rw [visitsAt_eq] at hvisit
          rcases List.mem_cons.1 hvisit with rfl | hvisit
          · exact h
          · obtain ⟨b, hb, hvisit⟩ := List.mem_flatMap.1 hvisit
            obtain ⟨hmem, -⟩ := mem_of_visitedBranches hb
            exact ih b hmem (hbranches b hmem) hvisit
      | _ => exact absurd hvisit List.not_mem_nil

/-- Has no node that is met two fields of one name? -/
def IsKeyed (t : Tree) : Prop :=
  ∀ visit ∈ t.visits, ∀ kind fields, visit.node = .node kind fields → (fields.map Prod.fst).Nodup

theorem isKeyed_of_isProper {t : Tree} (h : t.isProper = true) : t.IsKeyed := by
  intro visit hvisit kind fields hnode
  have hproper := isProper_visit h hvisit
  rw [hnode] at hproper
  exact (isProper_node.1 hproper).1

/-- No two nodes met in a proper tree have the same path. -/
theorem proper_paths_nodup {t : Tree} (h : t.isProper = true) :
    (t.visits.map Visit.path).Nodup :=
  visitsAt_paths_nodup (isKeyed_of_isProper h)

/-- No two nodes of a formed tree have the same path. -/
theorem visits_paths_nodup {t : Tree} (h : t.isFormed = true) :
    (t.visits.map Visit.path).Nodup :=
  proper_paths_nodup (isProper_of_isFormed t h)

/-- No two occurrences of a formed tree have the same path. -/
theorem occurrences_paths_nodup {t : Tree} (h : t.isFormed = true) :
    (t.occurrences.map Prod.fst).Nodup :=
  (visits_paths_nodup h).sublist (occurrencesAt_paths_sublist ⟨none, none, []⟩ t)

/-- A proper identifier has a name. -/
theorem name_of_proper {visit : Visit} (h : visit.node.isProper = true)
    (hidentifier : visit.isIdentifier = true) :
    ∃ fields name, visit.node = .node "Identifier" fields ∧
      fields.lookup "name" = some (.text name) := by
  cases hnode : visit.node with
  | node kind fields =>
      have hkind : kind = "Identifier" := by
        simpa [Visit.isIdentifier, hnode, isKind, kind?] using hidentifier
      rw [hnode] at h
      obtain ⟨name, hlookup⟩ := (isProper_node.1 h).2.1 hkind
      exact ⟨fields, name, by rw [hkind], hlookup⟩
  | _ => rw [Visit.isIdentifier, hnode] at hidentifier; cases hidentifier

/-- An identifier met in a proper tree has a name. -/
theorem name_of_proper_visit {t : Tree} (h : t.isProper = true) (spot : Spot) :
    ∀ visit ∈ t.visitsAt spot, visit.isIdentifier = true →
      ∃ fields name, visit.node = .node "Identifier" fields ∧
        fields.lookup "name" = some (.text name) :=
  fun _ hvisit => name_of_proper (isProper_visit h hvisit)

end NameRecovery.Tree
