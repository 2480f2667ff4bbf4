import NameRecovery.Proofs.Renaming
import NameRecovery.Proofs.Tree.Edited

/-!
# Renaming is a simultaneous substitution

Renaming a tree after a table collects new names on a walk and enters them in the tree.
What comes out is a substitution: every identifier that the walk meets where a binding is
named gets the name the table has for its name, once, and all else stays.  The tree may be
any proper one, with nodes of unknown kinds and fields that no walk enters.

* `Tree.substitute` — the substitution, by recursion on the tree;
* `Tree.substitute_substitute` — substitutions compose;
* `Tree.occurrences_substitute` — the occurrences keep their paths and get the new names;
* `Tree.EditsBy` — the edits a walk collects, and nothing else is edited;
* `Tree.EditsBy.editWith_eq` — they amount to a substitution;
* `Tree.rename_eq_substitute` — so renaming after a table is one.
-/

namespace NameRecovery

namespace Tree

mutual

/-- A value with the names of bindings in it replaced, given whether it stands where an
identifier names a binding.  Fields that no walk enters stay as they are. -/
def substituteAt (f : String → String) (binding : Bool) : Tree → Tree
  | .node kind fields =>
    if kind = "Identifier" then .node kind (if binding then respellName f fields else fields)
    else
      .node kind (substituteFields f (isVisitedField kind) (names (.node kind fields)) fields)
  | t => t

/-- The fields of a node with the names of bindings in those replaced that are entered. -/
def substituteFields (f : String → String) (entered binding : String → Bool) :
    List (String × Tree) → List (String × Tree)
  | [] => []
  | (key, .list items) :: rest =>
    (key, .list (if entered key then substituteItems f (binding key) items else items)) ::
      substituteFields f entered binding rest
  | (key, value) :: rest =>
    (key, if entered key then substituteAt f (binding key) value else value) ::
      substituteFields f entered binding rest

/-- The items of a list with the names of bindings in them replaced. -/
def substituteItems (f : String → String) (binding : Bool) : List Tree → List Tree
  | [] => []
  | item :: rest => substituteAt f binding item :: substituteItems f binding rest

end

/-- The tree with the names of its bindings replaced, all of them at once. -/
def substitute (f : String → String) (t : Tree) : Tree :=
  t.substituteAt f true

variable {f g : String → String}

/-- The value of a field with the names of bindings in it replaced, if it is entered. -/
def substituteIn (f : String → String) (entered binding : Bool) (key : String) (t : Tree) : Tree :=
  if entered then mapPlaced (fun _ => substituteAt f binding) key t else t

theorem substituteItems_eq (binding : Bool) (items : List Tree) :
    substituteItems f binding items = items.map (substituteAt f binding) := by
  induction items with
  | nil => rfl
  | cons item rest ih => rw [substituteItems, ih, List.map_cons]

theorem mapPlaced_list (change : Tree → Tree) (key : String) (items : List Tree) :
    mapPlaced (fun _ => change) key (.list items) = .list (items.map change) := by
  have hitems : items.zipIdx.map Prod.fst = items := List.zipIdx_map_fst ..
  rw [mapPlaced]
  conv => rhs; rw [← hitems, List.map_map]
  rfl

theorem substituteFields_eq (entered binding : String → Bool) (fields : List (String × Tree)) :
    substituteFields f entered binding fields = fields.map fun field =>
      (field.1, substituteIn f (entered field.1) (binding field.1) field.1 field.2) := by
  induction fields with
  | nil => rfl
  | cons field rest ih =>
      obtain ⟨key, value⟩ := field
      rw [List.map_cons]
      cases value with
      | list items =>
          rw [substituteFields, ih, substituteItems_eq, substituteIn, mapPlaced_list]
          split <;> rfl
      | _ =>
          rw [substituteFields, ih]
          · rfl
          · simp

theorem substituteAt_node {kind : String} (hkind : kind ≠ "Identifier") (binding : Bool)
    (fields : List (String × Tree)) :
    substituteAt f binding (.node kind fields) = .node kind (fields.map fun field =>
      (field.1, substituteIn f (isVisitedField kind field.1) (names (.node kind fields) field.1)
        field.1 field.2)) := by
  rw [substituteAt, if_neg hkind, substituteFields_eq]

theorem substituteAt_identifier (binding : Bool) (fields : List (String × Tree)) :
    substituteAt f binding (.node "Identifier" fields) =
      .node "Identifier" (if binding then respellName f fields else fields) := by
  rw [substituteAt, if_pos rfl]

/-! ## What a substitution keeps -/

theorem exists_fields_substituteAt (binding : Bool) (kind : String)
    (fields : List (String × Tree)) :
    ∃ fields', substituteAt f binding (.node kind fields) = .node kind fields' := by
  rw [substituteAt]
  split
  · exact ⟨_, rfl⟩
  · exact ⟨_, rfl⟩

theorem substituteAt_ne_list {t : Tree} (h : ∀ items, t ≠ .list items) (binding : Bool)
    (items : List Tree) : substituteAt f binding t ≠ .list items := by
  cases t with
  | list items => exact absurd rfl (h items)
  | node kind fields =>
      obtain ⟨fields', heq⟩ := @exists_fields_substituteAt f binding kind fields
      rw [heq]
      intro hlist
      cases hlist
  | _ => simp [substituteAt]

theorem isSet_substituteIn (entered binding : Bool) (key : String) (t : Tree) :
    (substituteIn f entered binding key t).isSet = t.isSet := by
  rw [substituteIn]
  split
  · cases t with
    | list items => rw [mapPlaced_list]; cases items <;> rfl
    | node kind fields =>
        rw [mapPlaced_of_ne_list (by simp)]
        obtain ⟨fields', heq⟩ := @exists_fields_substituteAt f binding kind fields
        rw [heq]
        rfl
    | _ => rfl
  · rfl

/-- The places of a node where identifiers name bindings stay the same. -/
theorem isBindingPlace_substituteAt {kind : String} (hkind : kind ≠ "Identifier")
    (binding : Bool) (fields : List (String × Tree)) (field : Option String) :
    isBindingPlace (some (substituteAt f binding (.node kind fields))) field =
      isBindingPlace (some (.node kind fields)) field := by
  have hhas : ∀ key, (substituteAt f binding (.node kind fields)).has key =
      (Tree.node kind fields).has key := by
    intro key
    rw [substituteAt_node hkind]
    by_cases hkey : key = "type"
    · simp [has, get, get?, hkey]
    · simp only [has, get, get?, if_neg hkey]
      rw [lookup_map_value fun key => substituteIn f (isVisitedField kind key)
        (names (.node kind fields) key) key]
      cases fields.lookup key with
      | none => rfl
      | some value => exact isSet_substituteIn ..
  simp only [isBindingPlace, hhas]
  rw [substituteAt_node hkind]
  rfl

/-- The branches of a field that is entered stand where they stood. -/
theorem placed_substituteIn (binding : Bool) (key : String) (t : Tree) :
    placed key (substituteIn f true binding key t) =
      (placed key t).map fun b => (b.1, substituteAt f binding b.2) := by
  rw [substituteIn, if_pos rfl]
  exact placed_mapPlaced (fun _ _ hne => substituteAt_ne_list hne binding) key t

theorem respellName_keys (f : String → String) (fields : List (String × Tree)) :
    (respellName f fields).map Prod.fst = fields.map Prod.fst := by
  rw [respellName, List.map_map]
  rfl

theorem lookup_respellName (f : String → String) (fields : List (String × Tree)) :
    (respellName f fields).lookup "name" = (fields.lookup "name").map (mapText f) := by
  rw [respellName,
    lookup_map_value fun key value => if key = "name" then mapText f value else value]
  rfl

/-- A proper tree stays proper. -/
theorem isProper_substituteAt {t : Tree} (h : t.isProper = true) (binding : Bool) :
    (substituteAt f binding t).isProper = true := by
  induction t using branch_induction generalizing binding with
  | step t ih =>
      cases t with
      | node kind fields =>
          obtain ⟨hkeys, hname, hbranches⟩ := isProper_node.1 h
          by_cases hkind : kind = "Identifier"
          · subst hkind
            rw [substituteAt_identifier]
            cases binding with
            | false => exact h
            | true =>
                rw [if_pos rfl, isProper_node, respellName_keys, lookup_respellName]
                obtain ⟨name, hlookup⟩ := hname rfl
                refine ⟨hkeys, fun _ => ⟨f name, by rw [hlookup]; rfl⟩, ?_⟩
                intro b hb
                obtain ⟨field', hfield', hb⟩ := List.mem_flatMap.1 hb
                obtain ⟨field, hfield, rfl⟩ := List.mem_map.1 hfield'
                have hvalue : field.2.isProper = true := isProper_placed.2 fun b hb =>
                  hbranches b (List.mem_flatMap.2 ⟨field, hfield, hb⟩)
                refine isProper_placed.1 ?_ b hb
                show (if field.1 = "name" then field.2.mapText f else field.2).isProper = true
                split
                · cases hfield : field.2 with
                  | text s => rfl
                  | _ => rw [hfield] at hvalue; exact hvalue
                · exact hvalue
          · rw [substituteAt_node hkind, isProper_node]
            refine ⟨by simpa [Function.comp_def] using hkeys, fun heq => absurd heq hkind, ?_⟩
            intro b hb
            obtain ⟨field', hfield', hb⟩ := List.mem_flatMap.1 hb
            obtain ⟨field, hfield, rfl⟩ := List.mem_map.1 hfield'
            have hmem : ∀ c ∈ placed field.1 field.2, c ∈ (Tree.node kind fields).branches :=
              fun c hc => List.mem_flatMap.2 ⟨field, hfield, hc⟩
            dsimp only at hb
            cases hentered : isVisitedField kind field.1 with
            | true =>
                rw [hentered, placed_substituteIn] at hb
                obtain ⟨c, hc, rfl⟩ := List.mem_map.1 hb
                exact ih c (hmem c hc) (hbranches c (hmem c hc)) _
            | false =>
                rw [hentered, substituteIn, if_neg (by simp)] at hb
                exact hbranches b (hmem b hb)
      | _ => exact h

/-! ## Laws -/

theorem substituteAt_substituteAt (f g : String → String) (t : Tree) (binding : Bool) :
    substituteAt g binding (substituteAt f binding t) =
      substituteAt (fun name => g (f name)) binding t := by
  induction t using branch_induction generalizing binding with
  | step t ih =>
      cases t with
      | node kind fields =>
          by_cases hkind : kind = "Identifier"
          · subst hkind
            rw [substituteAt_identifier, substituteAt_identifier, substituteAt_identifier]
            cases binding with
            | false => rfl
            | true => simp only [if_true, respellName_respellName]
          · have hnames : ∀ key, names (substituteAt f binding (.node kind fields)) key =
                names (.node kind fields) key :=
              fun key => isBindingPlace_substituteAt hkind binding fields (some key)
            rw [substituteAt_node hkind] at hnames
            rw [substituteAt_node hkind, substituteAt_node hkind, substituteAt_node hkind,
              List.map_map]
            refine congrArg _ (List.map_congr_left fun field hfield => ?_)
            simp only [Function.comp, hnames]
            refine congrArg (field.1, ·) ?_
            rw [substituteIn, substituteIn, substituteIn]
            split
            · rw [mapPlaced_mapPlaced fun _ _ hne => substituteAt_ne_list hne _]
              apply mapPlaced_congr
              intro b hb
              exact ih b (List.mem_flatMap.2 ⟨field, hfield, hb⟩) _
            · rfl
      | _ => rfl

/-- Substitutions compose. -/
theorem substitute_substitute (f g : String → String) (t : Tree) :
    (t.substitute f).substitute g = t.substitute fun name => g (f name) :=
  substituteAt_substituteAt f g t true

/-- A substitution of every name by itself changes nothing. -/
theorem substituteAt_id (t : Tree) (binding : Bool) :
    substituteAt (fun name => name) binding t = t := by
  induction t using branch_induction generalizing binding with
  | step t ih =>
      cases t with
      | node kind fields =>
          by_cases hkind : kind = "Identifier"
          · subst hkind
            -- An identifier is respelled in the same way, whatever its path.
            have hsame := respellAt_id (.node "Identifier" fields) binding []
            rw [respellAt, if_pos rfl] at hsame
            rw [substituteAt_identifier]
            exact hsame
          · rw [substituteAt_node hkind]
            refine congrArg _ ((List.map_congr_left fun field hfield => ?_).trans
              (List.map_id fields))
            refine congrArg (field.1, ·) ?_
            rw [substituteIn]
            split
            · have hbranches : mapPlaced
                  (fun _ => substituteAt (fun name => name) (names (.node kind fields) field.1))
                  field.1 field.2 = mapPlaced (fun _ t => t) field.1 field.2 := by
                apply mapPlaced_congr
                intro b hb
                exact ih b (List.mem_flatMap.2 ⟨field, hfield, hb⟩) _
              rw [hbranches, mapPlaced_id]
            · rfl
      | _ => rfl

/-! ## Occurrences -/

/-- A node that is no identifier is no occurrence. -/
theorem occurrence?_of_ne {kind : String} (hkind : kind ≠ "Identifier")
    (fields : List (String × Tree)) (parent : Option Tree) (field : Option String) (path : Path) :
    Visit.occurrence? ⟨.node kind fields, parent, field, path⟩ = none := by
  simp [Visit.occurrence?, Visit.isIdentifier, isKind, kind?, hkind]

/-- An identifier with a name is an occurrence where it names a binding. -/
theorem occurrence?_named {fields : List (String × Tree)} {name : String}
    (hname : fields.lookup "name" = some (.text name)) (parent : Option Tree)
    (field : Option String) (path : Path) :
    Visit.occurrence? ⟨.node "Identifier" fields, parent, field, path⟩ =
      if isBindingPlace parent field then some (path, name) else none := by
  cases hplace : isBindingPlace parent field with
  | true =>
      simp [Visit.occurrence?, Visit.isIdentifier, Visit.isBinding, isKind, kind?, hplace, get,
        get?, hname, text?]
  | false => simp [Visit.occurrence?, Visit.isBinding, hplace]

/-- The occurrences in a node that is no identifier are those of the branches that are
entered. -/
theorem occurrencesAt_eq {kind : String} (hkind : kind ≠ "Identifier")
    (fields : List (String × Tree)) (spot : Spot) :
    (Tree.node kind fields).occurrencesAt spot =
      (visitedBranches kind fields).flatMap fun b =>
        occurrencesAt (spotAt (.node kind fields) spot.path b.1) b.2 := by
  rw [occurrencesAt, visitsAt_eq, List.filterMap_cons, occurrence?_of_ne hkind,
    List.filterMap_flatMap]
  rfl

theorem occurrencesAt_named {fields : List (String × Tree)} {name : String}
    (hname : fields.lookup "name" = some (.text name)) (spot : Spot) :
    (Tree.node "Identifier" fields).occurrencesAt spot =
      if isBindingPlace spot.parent spot.field then [(spot.path, name)] else [] := by
  rw [occurrencesAt, visitsAt_eq, visitedBranches_identifier, List.flatMap_nil,
    List.filterMap_cons, occurrence?_named hname]
  cases isBindingPlace spot.parent spot.field <;> rfl

theorem visitedFields_map (kind : String) (value : String → Tree → Tree)
    (fields : List (String × Tree)) :
    visitedFields kind (fields.map fun field => (field.1, value field.1 field.2)) =
      (visitedFields kind fields).map fun field => (field.1, value field.1 field.2) := by
  rw [visitedFields, visitedFields]
  cases childFields.find? kind with
  | none => rfl
  | some keys =>
      simp only [List.map_filterMap]
      refine List.filterMap_congr fun key _ => ?_
      rw [lookup_map_value]
      cases fields.lookup key <;> rfl

/-- The branches that are entered are the same ones after a substitution. -/
theorem visitedBranches_substitute (kind : String) (binding : String → Bool)
    {fields : List (String × Tree)} (hkeys : (fields.map Prod.fst).Nodup) :
    visitedBranches kind (fields.map fun field => (field.1,
      substituteIn f (isVisitedField kind field.1) (binding field.1) field.1 field.2)) =
      (visitedBranches kind fields).map fun b =>
        (b.1, substituteAt f (binding b.1.field) b.2) := by
  rw [visitedBranches, visitedBranches,
    visitedFields_map kind fun key t =>
      substituteIn f (isVisitedField kind key) (binding key) key t, placedIn, placedIn, List.flatMap_map, List.map_flatMap]
  refine List.flatMap_congr fun field hfield => ?_
  rw [((mem_visitedFields hkeys).1 hfield).2, placed_substituteIn]
  refine List.map_congr_left fun b hb => ?_
  rw [placed_field hb]

/-- The occurrences keep their paths and get the new names. -/
theorem occurrencesAt_substituteAt {t : Tree} (h : t.isProper = true) (spot : Spot) :
    (substituteAt f (isBindingPlace spot.parent spot.field) t).occurrencesAt spot =
      (t.occurrencesAt spot).map fun o => (o.1, f o.2) := by
  induction t using branch_induction generalizing spot with
  | step t ih =>
      cases t with
      | node kind fields =>
          obtain ⟨hkeys, hname, hbranches⟩ := isProper_node.1 h
          by_cases hkind : kind = "Identifier"
          · subst hkind
            obtain ⟨name, hlookup⟩ := hname rfl
            rw [substituteAt_identifier, occurrencesAt_named hlookup]
            cases hplace : isBindingPlace spot.parent spot.field with
            | false =>
                rw [if_neg (by simp), occurrencesAt_named hlookup, hplace]
                rfl
            | true =>
                have hnew : (respellName f fields).lookup "name" = some (.text (f name)) := by
                  rw [lookup_respellName, hlookup]
                  rfl
                rw [if_pos rfl, occurrencesAt_named hnew, hplace]
                rfl
          · have hplaces := @isBindingPlace_substituteAt f kind hkind
              (isBindingPlace spot.parent spot.field) fields
            rw [substituteAt_node hkind] at hplaces ⊢
            rw [occurrencesAt_eq hkind, occurrencesAt_eq hkind,
              visitedBranches_substitute kind _ hkeys, List.flatMap_map, List.map_flatMap]
            refine List.flatMap_congr fun b hb => ?_
            obtain ⟨hmem, -⟩ := (mem_visitedBranches hkeys).1 hb
            rw [← ih b hmem (hbranches b hmem)]
            refine occurrencesAt_congr ?_ ?_ _
            · rfl
            · exact hplaces (some b.1.field)
      | _ => rfl

theorem occurrences_substitute {t : Tree} (h : t.isProper = true) :
    (t.substitute f).occurrences = t.occurrences.map fun o => (o.1, f o.2) :=
  occurrencesAt_substituteAt h ⟨none, none, []⟩

/-! ## Edits -/

/-- Without new names below a node its fields stay as they are. -/
theorem editFields_of_none {new : Path → Option String}
    (h : ∀ step path, new (step :: path) = none) (fields : List (String × Tree)) :
    editFields new fields = fields := by
  rw [editFields_eq]
  refine (List.map_congr_left fun field _ => ?_).trans (List.map_id fields)
  refine congrArg (field.1, ·) ((mapPlaced_congr fun b _ => ?_).trans (mapPlaced_id _ _))
  rw [show (fun path => new (b.1 :: path)) = fun _ => none from funext (h b.1)]
  exact editWith_none b.2

/-- The name of an identifier replaced is the only one it has. -/
theorem withName_eq_respellName {fields : List (String × Tree)} {name : String}
    (hkeys : (fields.map Prod.fst).Nodup) (hname : fields.lookup "name" = some (.text name)) :
    withName (some (f name)) fields = respellName f fields := by
  rw [withName, respellName]
  refine List.map_congr_left fun field hfield => ?_
  by_cases hkey : field.1 = "name"
  · have hvalue : fields.lookup field.1 = some field.2 := lookup_of_mem hkeys hfield
    rw [hkey, hname] at hvalue
    rw [if_pos hkey, if_pos hkey, ← Option.some.inj hvalue, hkey]
    rfl
  · rw [if_neg hkey, if_neg hkey]

theorem respellName_eq_self {fields : List (String × Tree)} {name : String}
    (hkeys : (fields.map Prod.fst).Nodup) (hname : fields.lookup "name" = some (.text name))
    (hsame : f name = name) : respellName f fields = fields := by
  rw [respellName]
  refine (List.map_congr_left fun field hfield => ?_).trans (List.map_id fields)
  by_cases hkey : field.1 = "name"
  · have hvalue : fields.lookup field.1 = some field.2 := lookup_of_mem hkeys hfield
    rw [hkey, hname] at hvalue
    rw [if_pos hkey, ← Option.some.inj hvalue, mapText, hsame, Option.some.inj hvalue]
    rfl
  · rw [if_neg hkey]
    rfl

/-- A node met in a node is that node, or is met in one of the branches that are
entered. -/
theorem path_of_visit {kind : String} {fields : List (String × Tree)} (spot : Spot) {p : Path}
    (hp : p ∈ ((Tree.node kind fields).visitsAt spot).map Visit.path) :
    p = spot.path ∨ ∃ b ∈ visitedBranches kind fields,
      p ∈ (visitsAt (spotAt (.node kind fields) spot.path b.1) b.2).map Visit.path ∧
        spot.path ++ [b.1] <+: p := by
  rw [visitsAt_eq, List.map_cons, List.mem_cons, List.map_flatMap, List.mem_flatMap] at hp
  rcases hp with rfl | ⟨b, hb, hp⟩
  · exact .inl rfl
  · exact .inr ⟨b, hb, hp, visitsAt_below hp⟩

variable {table : Table String} {new : Path → Option String} {spot : Spot} {kind : String}
  {fields : List (String × Tree)}

/-- The edits of a value give the occurrences in it the names of a table, and nothing else
in it a name. -/
structure EditsBy (table : Table String) (new : Path → Option String) (t : Tree) (spot : Spot) :
    Prop where
  visited : ∀ visit ∈ t.visitsAt spot,
    new visit.path = visit.occurrence?.bind fun o => table.find? o.2
  rest : ∀ p, spot.path <+: p → p ∉ (t.visitsAt spot).map Visit.path → new p = none

namespace EditsBy

theorem root (h : EditsBy table new (.node kind fields) spot) :
    new spot.path = (Visit.occurrence? ⟨.node kind fields, spot.parent, spot.field,
      spot.path⟩).bind fun o => table.find? o.2 := by
  apply h.visited ⟨.node kind fields, spot.parent, spot.field, spot.path⟩
  rw [visitsAt_eq]
  exact List.mem_cons_self

/-- So do the edits of a branch that is entered. -/
theorem branch (h : EditsBy table new (.node kind fields) spot)
    (hproper : (Tree.node kind fields).isProper = true) {b : Step × Tree}
    (hb : b ∈ visitedBranches kind fields) :
    EditsBy table new b.2 (spotAt (.node kind fields) spot.path b.1) := by
  have hsteps := placedIn_steps_nodup (visitedFields_keys_nodup kind (isProper_node.1 hproper).1)
  constructor
  · intro visit hvisit
    apply h.visited visit
    rw [visitsAt_eq]
    exact List.mem_cons_of_mem _ (List.mem_flatMap.2 ⟨b, hb, hvisit⟩)
  · intro p hprefix hmissing
    apply h.rest p ((List.prefix_append _ _).trans hprefix)
    intro hp
    rcases path_of_visit spot hp with rfl | ⟨c, hc, hp, hprefix'⟩
    · exact absurd hprefix.length_le (by simp [spotAt])
    · -- The path leads through this branch, so the node was met in it.
      have hsame : c = b :=
        List.inj_on_of_nodup_map hsteps hc hb (step_unique hprefix' hprefix)
      exact hmissing (hsame ▸ hp)

/-- Nothing gets a name in a branch that is not entered. -/
theorem unvisited (h : EditsBy table new (.node kind fields) spot) {step : Step}
    (hstep : ∀ b ∈ visitedBranches kind fields, b.1 ≠ step) (path : Path) :
    new (spot.path ++ step :: path) = none := by
  apply h.rest _ (List.prefix_append ..)
  intro hmem
  rcases path_of_visit spot hmem with heq | ⟨b, hb, -, hprefix⟩
  · simp at heq
  · exact hstep b hb (step_unique hprefix ⟨path, by simp⟩)

/-- The edits of an identifier replace its name where it names a binding. -/
theorem identifier (h : EditsBy table new (.node "Identifier" fields) spot)
    (hproper : (Tree.node "Identifier" fields).isProper = true) :
    editWith (fun path => new (spot.path ++ path)) (.node "Identifier" fields) =
      substituteAt table.spell (isBindingPlace spot.parent spot.field)
        (.node "Identifier" fields) := by
  obtain ⟨hkeys, hname, -⟩ := isProper_node.1 hproper
  obtain ⟨name, hlookup⟩ := hname rfl
  have hnone : ∀ step path, new (spot.path ++ step :: path) = none := by
    intro step path
    apply h.unvisited
    rw [visitedBranches_identifier]
    intro b hb
    exact absurd hb List.not_mem_nil
  rw [editWith, List.append_nil, editFields_of_none hnone, substituteAt_identifier, h.root,
    occurrence?_named hlookup]
  cases isBindingPlace spot.parent spot.field with
  | false => rfl
  | true =>
      simp only [if_true, Option.bind_some]
      cases hfind : table.find? name with
      | none =>
          have hspell : table.spell name = name := by rw [Table.spell, hfind]; rfl
          rw [withName, respellName_eq_self hkeys hlookup hspell]
      | some name' =>
          have hspell : table.spell name = name' := by rw [Table.spell, hfind]; rfl
          rw [← hspell, withName_eq_respellName hkeys hlookup]

/-- These edits are a substitution. -/
theorem editWith_eq {t : Tree} (h : EditsBy table new t spot) (hproper : t.isProper = true) :
    editWith (fun path => new (spot.path ++ path)) t =
      substituteAt table.spell (isBindingPlace spot.parent spot.field) t := by
  induction t using branch_induction generalizing spot with
  | step t ih =>
      cases t with
      | node kind fields =>
          obtain ⟨hkeys, -, hbranches⟩ := isProper_node.1 hproper
          by_cases hkind : kind = "Identifier"
          · subst hkind
            exact h.identifier hproper
          · rw [editWith, List.append_nil, h.root, occurrence?_of_ne hkind, Option.bind_none,
              withName, editFields_eq, substituteAt_node hkind]
            refine congrArg _ (List.map_congr_left fun field hfield => ?_)
            refine congrArg (field.1, ·) ?_
            have hmem : ∀ b ∈ placed field.1 field.2, b ∈ (Tree.node kind fields).branches :=
              fun b hb => List.mem_flatMap.2 ⟨field, hfield, hb⟩
            cases hvisited : isVisitedField kind field.1 with
            | true =>
                rw [substituteIn, if_pos rfl]
                apply mapPlaced_congr
                intro b hb
                have hentered : b ∈ visitedBranches kind fields :=
                  (mem_visitedBranches hkeys).2 ⟨hmem b hb, by rw [placed_field hb, hvisited]⟩
                have hb' := ih b (hmem b hb) (h.branch hproper hentered) (hbranches b (hmem b hb))
                simp only [spotAt, List.append_assoc, List.singleton_append] at hb'
                rw [hb', ← placed_field hb]
                rfl
            | false =>
                rw [substituteIn, if_neg (by simp)]
                refine (mapPlaced_congr fun b hb => ?_).trans (mapPlaced_id _ _)
                have hnone : (fun path => new (spot.path ++ b.1 :: path)) = fun _ => none := by
                  funext path
                  apply h.unvisited
                  intro c hc hstep
                  have hc' := ((mem_visitedBranches hkeys).1 hc).2
                  rw [hstep, placed_field hb, hvisited] at hc'
                  cases hc'
                rw [hnone]
                exact editWith_none b.2
      | _ => rfl

end EditsBy

/-! ## Renaming after tables -/

theorem lookup_respelled_of_not_mem {occurrences : List (Path × String)} {p : Path}
    (h : p ∉ occurrences.map Prod.fst) : (respelled table occurrences).lookup p = none := by
  refine List.lookup_eq_none_iff.2 fun e he => ?_
  obtain ⟨o, ho, hmap⟩ := List.mem_filterMap.1 he
  obtain ⟨name, -, rfl⟩ := Option.map_eq_some_iff.1 hmap
  have hne : p ≠ o.1 := fun heq => h (heq ▸ List.mem_map_of_mem ho)
  simpa using hne

/-- The new name for the path of a node met is that of the occurrence it is, if it is one. -/
theorem lookup_respelled_visit {t : Tree} (h : t.isProper = true) {visit : Visit}
    (hvisit : visit ∈ t.visits) :
    (respelled table t.occurrences).lookup visit.path =
      visit.occurrence?.bind fun o => table.find? o.2 := by
  have hpaths := proper_paths_nodup h
  cases hoccurrence : visit.occurrence? with
  | some o =>
      have ho : o ∈ t.occurrences := List.mem_filterMap.2 ⟨visit, hvisit, hoccurrence⟩
      have hnodup := hpaths.sublist (occurrencesAt_paths_sublist ⟨none, none, []⟩ t)
      rw [← (occurrence?_path hoccurrence).1]
      exact lookup_respelled table hnodup ho
  | none =>
      apply lookup_respelled_of_not_mem
      intro hmem
      obtain ⟨o, ho, hpath⟩ := List.mem_map.1 hmem
      obtain ⟨visit', hvisit', hoccurrence'⟩ := List.mem_filterMap.1 ho
      have hsame : visit' = visit := List.inj_on_of_nodup_map hpaths hvisit' hvisit
        ((occurrence?_path hoccurrence').1 ▸ hpath)
      rw [hsame, hoccurrence] at hoccurrence'
      cases hoccurrence'

/-- Entering the new names of all occurrences in a proper tree is a substitution. -/
theorem edit_eq_substitute {t : Tree} (h : t.isProper = true) (table : Table String) :
    t.edit (respelled table t.occurrences) = t.substitute table.spell := by
  have hedits : EditsBy table (fun p => (respelled table t.occurrences).lookup p) t
      ⟨none, none, []⟩ := by
    constructor
    · intro visit hvisit
      exact lookup_respelled_visit h hvisit
    · intro p _ hmissing
      apply lookup_respelled_of_not_mem
      intro hmem
      exact hmissing ((occurrencesAt_paths_sublist ⟨none, none, []⟩ t).subset hmem)
  rw [edit_eq_editWith]
  exact hedits.editWith_eq h

theorem length_respelled (table : Table String) (occurrences : List (Path × String)) :
    (respelled table occurrences).length = occurrences.countP fun o => table.has o.2 := by
  rw [respelled, List.length_filterMap_eq_countP]
  apply List.countP_congr
  intro o _
  rw [Option.isSome_map, Table.has]

/-- Renaming a proper tree after a table substitutes names, and counts the occurrences that
have an entry. -/
theorem rename_eq_substitute {t : Tree} (h : t.isProper = true) (hnode : t.isNode = true)
    (table : Table String) : t.rename table =
      (t.substitute table.spell, .ok (t.occurrences.countP fun o => table.has o.2 : Nat)) := by
  cases t with
  | node kind fields =>
      rw [rename]
      split
      · rename_i hempty
        rw [List.isEmpty_iff.1 hempty]
        refine Prod.ext (substituteAt_id _ true).symm ?_
        simp
      · have hnew := newNames_eq table (name_of_proper_visit h ⟨none, none, []⟩)
        rw [walk_node]
        dsimp only
        rw [visits, hnew, ← length_respelled, ← edit_eq_substitute h]
        rfl
  | _ => cases hnode

end Tree

end NameRecovery
