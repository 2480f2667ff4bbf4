import NameRecovery.Proofs.Tree.Proper
import NameRecovery.Tree.Edit

/-!
# Spelling bindings anew

`Tree.respell` gives every occurrence of a tree a new name, which may depend on its
path and its old name, and leaves all else as it is.  Edits of occurrences are such
respellings, and so is renaming all bindings after a function of their names.

* `Tree.occurrences_respell` — the occurrences keep their paths and get the new names;
* `Tree.respell_respell`, `Tree.respell_congr`, `Tree.respell_eq_self` — respellings
  compose, and only the names at occurrences count;
* `Tree.edit_eq_respell` — edits at occurrences are a respelling.
-/

namespace NameRecovery.Tree

/-- New names by path and old name. -/
abbrev Spelling := Path → String → String

/-- A text spelled anew; any other value as it is. -/
def mapText (spell : String → String) : Tree → Tree
  | .text name => .text (spell name)
  | t => t

/-- The fields of an identifier with its name spelled anew. -/
def respellName (spell : String → String) (fields : List (String × Tree)) :
    List (String × Tree) :=
  fields.map fun field => (field.1, if field.1 = "name" then field.2.mapText spell else field.2)

/-- Does an identifier in this field of the node name a binding? -/
def names (t : Tree) (key : String) : Bool :=
  isBindingPlace (some t) (some key)

mutual

/-- A value with its occurrences spelled anew, given whether it stands where an identifier
names a binding, and its path. -/
def respellAt (spell : Spelling) (binding : Bool) (path : Path) : Tree → Tree
  | .node kind fields =>
    if kind = "Identifier" then
      .node kind (if binding then respellName (spell path) fields else fields)
    else .node kind (respellFields spell (names (.node kind fields)) path fields)
  | t => t

/-- The fields of a node with the occurrences in them spelled anew. -/
def respellFields (spell : Spelling) (binding : String → Bool) (path : Path) :
    List (String × Tree) → List (String × Tree)
  | [] => []
  | (key, .list items) :: rest =>
    (key, .list (respellItems spell (binding key) path key 0 items)) ::
      respellFields spell binding path rest
  | (key, value) :: rest =>
    (key, respellAt spell (binding key) (path ++ [⟨key, 0⟩]) value) ::
      respellFields spell binding path rest

/-- The items of a list with the occurrences in them spelled anew. -/
def respellItems (spell : Spelling) (binding : Bool) (path : Path) (key : String) :
    Nat → List Tree → List Tree
  | _, [] => []
  | index, item :: rest =>
    respellAt spell binding (path ++ [⟨key, index⟩]) item ::
      respellItems spell binding path key (index + 1) rest

end

/-- The tree with its occurrences spelled anew. -/
def respell (spell : Spelling) (t : Tree) : Tree :=
  t.respellAt spell true []

/-- The tree with its bindings renamed, all those of one name alike. -/
def renamed (f : String → String) (t : Tree) : Tree :=
  t.respell fun _ name => f name

/-- A label names no binding and keeps its spelling. -/
example : (Tree.node "BreakStatement" [("label", .node "Identifier" [("name", .text "a")])]).renamed
    (fun name => name ++ "b") =
      .node "BreakStatement" [("label", .node "Identifier" [("name", .text "a")])] := by
  cbv

/-- The value of a field with a change made to every branch in it. -/
def mapPlaced (change : Step → Tree → Tree) (key : String) : Tree → Tree
  | .list items => .list (items.zipIdx.map fun item => change ⟨key, item.2⟩ item.1)
  | t => change ⟨key, 0⟩ t

/-- The value of a field with its occurrences spelled anew. -/
def respellIn (spell : Spelling) (binding : Bool) (path : Path) (key : String) : Tree → Tree :=
  mapPlaced (fun step => respellAt spell binding (path ++ [step])) key

theorem mapPlaced_of_ne_list {change : Step → Tree → Tree} {key : String} {t : Tree}
    (h : ∀ items, t ≠ .list items) : mapPlaced change key t = change ⟨key, 0⟩ t := by
  cases t with
  | list items => exact absurd rfl (h items)
  | _ => rfl

/-- Changes that agree on the branches of a field agree on its value. -/
theorem mapPlaced_congr {change change' : Step → Tree → Tree} {key : String} {t : Tree}
    (h : ∀ b ∈ placed key t, change b.1 b.2 = change' b.1 b.2) :
    mapPlaced change key t = mapPlaced change' key t := by
  by_cases hlist : ∃ items, t = .list items
  · obtain ⟨items, rfl⟩ := hlist
    simp only [mapPlaced, Tree.list.injEq]
    exact List.map_congr_left fun item hitem => h (⟨key, item.2⟩, item.1) (List.mem_map_of_mem hitem)
  · have hne : ∀ items, t ≠ .list items := fun items h => hlist ⟨items, h⟩
    rw [mapPlaced_of_ne_list hne, mapPlaced_of_ne_list hne]
    exact h (⟨key, 0⟩, t) (by rw [placed_of_ne_list hne]; exact List.mem_singleton.2 rfl)

theorem zipIdx_map_zipIdx {α β : Type} (g : α → Nat → β) (items : List α) (start : Nat) :
    ((items.zipIdx start).map fun item => g item.1 item.2).zipIdx start =
      (items.zipIdx start).map fun item => (g item.1 item.2, item.2) := by
  induction items generalizing start with
  | nil => rfl
  | cons item rest ih => simp [List.zipIdx_cons, ih]

section Change

/-! A change that makes no list of anything else leaves every branch in its place. -/

variable {change : Step → Tree → Tree}
  (hlist : ∀ step t, (∀ items, t ≠ .list items) → ∀ items, change step t ≠ .list items)

include hlist

theorem placed_mapPlaced (key : String) (t : Tree) :
    placed key (mapPlaced change key t) = (placed key t).map fun b => (b.1, change b.1 b.2) := by
  by_cases ht : ∃ items, t = .list items
  · obtain ⟨items, rfl⟩ := ht
    rw [mapPlaced, placed, placed, List.map_map,
      zipIdx_map_zipIdx fun item index => change ⟨key, index⟩ item, List.map_map]
    rfl
  · have hne : ∀ items, t ≠ .list items := fun items h => ht ⟨items, h⟩
    rw [mapPlaced_of_ne_list hne, placed_of_ne_list hne, placed_of_ne_list (hlist _ _ hne),
      List.map_singleton]

theorem mapPlaced_mapPlaced (change' : Step → Tree → Tree) (key : String) (t : Tree) :
    mapPlaced change' key (mapPlaced change key t) =
      mapPlaced (fun step t => change' step (change step t)) key t := by
  by_cases ht : ∃ items, t = .list items
  · obtain ⟨items, rfl⟩ := ht
    simp only [mapPlaced, Tree.list.injEq]
    rw [zipIdx_map_zipIdx fun item index => change ⟨key, index⟩ item, List.map_map]
    rfl
  · have hne : ∀ items, t ≠ .list items := fun items h => ht ⟨items, h⟩
    rw [mapPlaced_of_ne_list hne, mapPlaced_of_ne_list (hlist _ _ hne), mapPlaced_of_ne_list hne]

end Change

theorem mapPlaced_id (key : String) (t : Tree) : mapPlaced (fun _ t => t) key t = t := by
  cases t with
  | list items => simp [mapPlaced]
  | _ => rfl

/-! ## What a respelling keeps -/

variable {spell : Spelling}

theorem respellItems_eq (binding : Bool) (path : Path) (key : String) (items : List Tree)
    (start : Nat) :
    respellItems spell binding path key start items =
      (items.zipIdx start).map fun item =>
        respellAt spell binding (path ++ [⟨key, item.2⟩]) item.1 := by
  induction items generalizing start with
  | nil => rfl
  | cons item rest ih => rw [respellItems, ih, List.zipIdx_cons, List.map_cons]

theorem respellFields_eq (binding : String → Bool) (path : Path)
    (fields : List (String × Tree)) :
    respellFields spell binding path fields = fields.map fun field =>
      (field.1, respellIn spell (binding field.1) path field.1 field.2) := by
  induction fields with
  | nil => rfl
  | cons field rest ih =>
      obtain ⟨key, value⟩ := field
      rw [List.map_cons]
      cases value with
      | list items => rw [respellFields, ih, respellItems_eq, respellIn, mapPlaced]
      | _ =>
          rw [respellFields, ih]
          · rfl
          · simp

theorem respellAt_node {kind : String} (hkind : kind ≠ "Identifier") (binding : Bool)
    (path : Path) (fields : List (String × Tree)) :
    respellAt spell binding path (.node kind fields) =
      .node kind (fields.map fun field =>
        (field.1, respellIn spell (names (.node kind fields) field.1) path field.1 field.2)) := by
  rw [respellAt, if_neg hkind, respellFields_eq]

theorem respellAt_identifier (binding : Bool) (path : Path) (name : String) :
    respellAt spell binding path (.node "Identifier" [("name", .text name)]) =
      .node "Identifier" [("name", .text (if binding then spell path name else name))] := by
  cases binding <;> simp [respellAt, respellName, mapText]

@[simp] theorem kind?_respellAt (binding : Bool) (path : Path) (t : Tree) :
    (respellAt spell binding path t).kind? = t.kind? := by
  cases t with
  | node kind fields => rw [respellAt]; split <;> rfl
  | _ => rfl

@[simp] theorem isAny_respellAt (kinds : List String) (binding : Bool) (path : Path) (t : Tree) :
    (respellAt spell binding path t).isAny kinds = t.isAny kinds := by
  rw [isAny, isAny, kind?_respellAt]

@[simp] theorem isNull_respellAt (binding : Bool) (path : Path) (t : Tree) :
    (respellAt spell binding path t).isNull = t.isNull := by
  cases t with
  | node kind fields => rw [respellAt]; split <;> rfl
  | _ => rfl

theorem respellIn_of_ne_list {t : Tree} (h : ∀ items, t ≠ .list items) (binding : Bool)
    (path : Path) (key : String) :
    respellIn spell binding path key t = respellAt spell binding (path ++ [⟨key, 0⟩]) t :=
  mapPlaced_of_ne_list h

theorem respellAt_ne_list {t : Tree} (h : ∀ items, t ≠ .list items) (binding : Bool)
    (path : Path) (items : List Tree) : respellAt spell binding path t ≠ .list items := by
  cases t with
  | list items => exact absurd rfl (h items)
  | node kind fields => rw [respellAt]; split <;> simp
  | _ => simp [respellAt]

theorem isSet_respellIn (binding : Bool) (path : Path) (key : String) (t : Tree) :
    (respellIn spell binding path key t).isSet = t.isSet := by
  cases t with
  | list items => cases items <;> rfl
  | node kind fields => rw [respellIn_of_ne_list (by simp), respellAt]; split <;> rfl
  | _ => rfl

/-- The branches stand where they stood, and are spelled anew themselves. -/
theorem placed_respellIn (binding : Bool) (path : Path) (key : String) (t : Tree) :
    placed key (respellIn spell binding path key t) =
      (placed key t).map fun b => (b.1, respellAt spell binding (path ++ [b.1]) b.2) :=
  placed_mapPlaced (fun _ _ h => respellAt_ne_list h _ _) key t

theorem lookup_map_value {κ α β : Type} [BEq κ] [LawfulBEq κ] (g : κ → α → β) (key : κ)
    (entries : List (κ × α)) :
    (entries.map fun entry => (entry.1, g entry.1 entry.2)).lookup key =
      (entries.lookup key).map (g key) := by
  induction entries with
  | nil => rfl
  | cons entry rest ih =>
      obtain ⟨k, value⟩ := entry
      rw [List.map_cons, List.lookup_cons, List.lookup_cons, ih]
      cases hkey : key == k with
      | true => rw [beq_iff_eq.1 hkey]; rfl
      | false => rfl

theorem has_respellAt {kind : String} (hkind : kind ≠ "Identifier") (binding : Bool)
    (path : Path) (fields : List (String × Tree)) (key : String) :
    (respellAt spell binding path (.node kind fields)).has key = (Tree.node kind fields).has key := by
  rw [respellAt_node hkind]
  by_cases hkey : key = "type"
  · simp [has, get, get?, hkey]
  · simp only [has, get, get?, if_neg hkey]
    rw [lookup_map_value fun key => respellIn spell (names (.node kind fields) key) path key]
    cases fields.lookup key with
    | none => rfl
    | some value => exact isSet_respellIn ..

/-- A respelling moves no binding place. -/
theorem isBindingPlace_respellAt (spell : Spelling) {kind : String} (hkind : kind ≠ "Identifier") (binding : Bool)
    (path : Path) (fields : List (String × Tree)) (field : Option String) :
    isBindingPlace (some (respellAt spell binding path (.node kind fields))) field =
      isBindingPlace (some (.node kind fields)) field := by
  simp only [isBindingPlace, kind?_respellAt, has_respellAt hkind]

theorem names_respellAt (spell : Spelling) {kind : String} (hkind : kind ≠ "Identifier") (binding : Bool)
    (path : Path) (fields : List (String × Tree)) (key : String) :
    names (respellAt spell binding path (.node kind fields)) key =
      names (.node kind fields) key :=
  isBindingPlace_respellAt spell hkind ..

/-! ## Formed trees stay formed -/

theorem accepts_respellIn (slot : Slot) (binding : Bool) (path : Path) (key : String) (t : Tree) :
    slot.accepts (respellIn spell binding path key t) = slot.accepts t := by
  cases t with
  | list items =>
      cases slot with
      | one _ | maybe _ => simp [respellIn, mapPlaced, Slot.accepts, isAny, kind?, isNull]
      | many kinds | sparse kinds =>
          have hitems : items.zipIdx.map Prod.fst = items := List.zipIdx_map_fst ..
          simp only [respellIn, mapPlaced, Slot.accepts, List.all_map, Function.comp_def, isAny_respellAt,
            isNull_respellAt]
          conv => rhs; rw [← hitems, List.all_map]
          rfl
      | _ => rfl
  | node kind fields =>
      have hnode : ∃ fields', respellIn spell binding path key (.node kind fields) =
          .node kind fields' := by
        rw [respellIn_of_ne_list (by simp), respellAt]
        split <;> exact ⟨_, rfl⟩
      obtain ⟨fields', heq⟩ := hnode
      rw [heq]
      cases slot <;> rfl
  | _ => rfl

theorem fits_respell {value : String × Tree → Tree} (layout : Layout)
    (hvalue : ∀ slot field, Slot.accepts slot (value field) = slot.accepts field.2) :
    ∀ fields, fits layout (fields.map fun field => (field.1, value field)) = fits layout fields := by
  induction layout with
  | nil => intro fields; cases fields <;> rfl
  | cons entry layout ih =>
      intro fields
      cases fields with
      | nil => rfl
      | cons field rest => simp only [List.map_cons, fits, hvalue, ih]

theorem isLaidOut_respell (spell : Spelling) (kind : String) (binding : String → Bool) (path : Path)
    (fields : List (String × Tree)) :
    isLaidOut kind (fields.map fun field =>
      (field.1, respellIn spell (binding field.1) path field.1 field.2)) =
      isLaidOut kind fields := by
  simp only [isLaidOut]
  congr 1
  funext layout
  exact fits_respell layout (fun slot field => accepts_respellIn slot ..) fields

theorem isFormed_respellIn {binding : Bool} {path : Path} {key : String} {t : Tree}
    (h : ∀ b ∈ placed key t, (respellAt spell binding (path ++ [b.1]) b.2).isFormed = true) :
    (respellIn spell binding path key t).isFormed = true := by
  by_cases hlist : ∃ items, t = .list items
  · obtain ⟨items, rfl⟩ := hlist
    rw [respellIn, mapPlaced, isFormed_list]
    intro item hitem
    obtain ⟨i, hi, rfl⟩ := List.mem_map.1 hitem
    exact h (⟨key, i.2⟩, i.1) (List.mem_map_of_mem hi)
  · have hne : ∀ items, t ≠ .list items := fun items h => hlist ⟨items, h⟩
    rw [respellIn_of_ne_list hne]
    exact h (⟨key, 0⟩, t) (by rw [placed_of_ne_list hne]; exact List.mem_singleton.2 rfl)

/-- A formed tree stays formed. -/
theorem isFormed_respellAt {t : Tree} (h : t.isFormed = true) (binding : Bool) (path : Path) :
    (respellAt spell binding path t).isFormed = true := by
  induction t using branch_induction generalizing binding path with
  | step t ih =>
      cases t with
      | node kind fields =>
          obtain ⟨hlaid, -⟩ := isFormed_node.1 h
          by_cases hkind : kind = "Identifier"
          · subst hkind
            obtain ⟨name, rfl⟩ := fields_of_identifier hlaid
            rw [respellAt_identifier]
            rfl
          · rw [respellAt_node hkind, isFormed_node, isLaidOut_respell]
            refine ⟨hlaid, fun f hf => ?_⟩
            obtain ⟨field, hfield, rfl⟩ := List.mem_map.1 hf
            refine isFormed_respellIn fun b hb => ?_
            have hbranch : b ∈ (Tree.node kind fields).branches :=
              List.mem_flatMap.2 ⟨field, hfield, hb⟩
            exact ih b hbranch (isFormed_branch h hbranch) _ _
      | _ => exact h

theorem isProgram_respell {t : Tree} (h : t.isProgram = true) :
    (t.respell spell).isProgram = true := by
  rw [isProgram, Bool.and_eq_true] at h ⊢
  refine ⟨?_, isFormed_respellAt h.2 ..⟩
  rw [respell, isKind, kind?_respellAt]
  exact h.1

/-! ## Occurrences -/

theorem placedIn_respell (spell : Spelling) (binding : String → Bool) (path : Path)
    (fields : List (String × Tree)) :
    placedIn (fields.map fun field =>
      (field.1, respellIn spell (binding field.1) path field.1 field.2)) =
      (placedIn fields).map fun b =>
        (b.1, respellAt spell (binding b.1.field) (path ++ [b.1]) b.2) := by
  rw [placedIn, placedIn, List.flatMap_map, List.map_flatMap]
  refine List.flatMap_congr fun field _ => ?_
  rw [placed_respellIn]
  refine List.map_congr_left fun b hb => ?_
  rw [placed_field hb]

/-- The occurrences keep their paths and get the new names. -/
theorem occurrencesAt_respellAt {t : Tree} (h : t.isFormed = true) (spot : Spot) :
    (respellAt spell (isBindingPlace spot.parent spot.field) spot.path t).occurrencesAt spot =
      (t.occurrencesAt spot).map fun o => (o.1, spell o.1 o.2) := by
  induction t using branch_induction generalizing spot with
  | step t ih =>
      cases t with
      | node kind fields =>
          obtain ⟨hlaid, -⟩ := isFormed_node.1 h
          by_cases hkind : kind = "Identifier"
          · subst hkind
            obtain ⟨name, rfl⟩ := fields_of_identifier hlaid
            rw [respellAt_identifier, occurrencesAt_identifier, occurrencesAt_identifier]
            cases isBindingPlace spot.parent spot.field <;> rfl
          · have hplaces := isBindingPlace_respellAt spell hkind
              (isBindingPlace spot.parent spot.field) spot.path fields
            rw [respellAt_node hkind] at hplaces ⊢
            rw [occurrencesAt_node (by rw [isLaidOut_respell]; exact hlaid) hkind,
              occurrencesAt_node hlaid hkind, placedIn_respell, List.flatMap_map,
              List.map_flatMap]
            refine List.flatMap_congr fun b hb => ?_
            rw [← ih b hb (isFormed_branch h hb)]
            refine occurrencesAt_congr ?_ ?_ _
            · rfl
            · exact hplaces (some b.1.field)
      | _ => rfl

theorem occurrences_respell {t : Tree} (h : t.isFormed = true) :
    (t.respell spell).occurrences = t.occurrences.map fun o => (o.1, spell o.1 o.2) :=
  occurrencesAt_respellAt h ⟨none, none, []⟩

/-! ## Laws -/

theorem respellName_respellName (f g : String → String) (fields : List (String × Tree)) :
    respellName g (respellName f fields) = respellName (fun name => g (f name)) fields := by
  rw [respellName, respellName, respellName, List.map_map]
  refine List.map_congr_left fun field _ => ?_
  by_cases hname : field.1 = "name"
  · simp only [Function.comp, if_pos hname]
    cases field.2 <;> rfl
  · simp only [Function.comp, if_neg hname]

theorem respellIn_respellIn {spell' : Spelling} {binding : Bool} {path : Path} {key : String}
    {t : Tree}
    (h : ∀ b ∈ placed key t,
      respellAt spell' binding (path ++ [b.1]) (respellAt spell binding (path ++ [b.1]) b.2) =
        respellAt (fun p name => spell' p (spell p name)) binding (path ++ [b.1]) b.2) :
    respellIn spell' binding path key (respellIn spell binding path key t) =
      respellIn (fun p name => spell' p (spell p name)) binding path key t := by
  rw [respellIn, respellIn, mapPlaced_mapPlaced fun _ _ h => respellAt_ne_list h _ _]
  exact mapPlaced_congr h

theorem respellAt_respellAt (spell' : Spelling) (t : Tree) (binding : Bool) (path : Path) :
    respellAt spell' binding path (respellAt spell binding path t) =
      respellAt (fun p name => spell' p (spell p name)) binding path t := by
  induction t using branch_induction generalizing binding path with
  | step t ih =>
      cases t with
      | node kind fields =>
          by_cases hkind : kind = "Identifier"
          · subst hkind
            cases binding with
            | true => simp only [respellAt, if_true, respellName_respellName]
            | false => simp [respellAt]
          · have hnames := names_respellAt spell hkind binding path fields
            rw [respellAt_node hkind] at hnames ⊢
            rw [respellAt_node hkind, respellAt_node hkind, List.map_map]
            refine congrArg _ (List.map_congr_left fun field hfield => ?_)
            simp only [Function.comp, hnames]
            rw [respellIn_respellIn fun b hb =>
              ih b (List.mem_flatMap.2 ⟨field, hfield, hb⟩) _ _]
      | _ => rfl

/-- Respellings compose. -/
theorem respell_respell (spell' : Spelling) (t : Tree) :
    (t.respell spell).respell spell' = t.respell fun p name => spell' p (spell p name) :=
  respellAt_respellAt spell' t true []

theorem respellAt_congr {spell' : Spelling} {t : Tree} (h : t.isFormed = true) (spot : Spot)
    (hspell : ∀ o ∈ t.occurrencesAt spot, spell o.1 o.2 = spell' o.1 o.2) :
    respellAt spell (isBindingPlace spot.parent spot.field) spot.path t =
      respellAt spell' (isBindingPlace spot.parent spot.field) spot.path t := by
  induction t using branch_induction generalizing spot with
  | step t ih =>
      cases t with
      | node kind fields =>
          obtain ⟨hlaid, -⟩ := isFormed_node.1 h
          by_cases hkind : kind = "Identifier"
          · subst hkind
            obtain ⟨name, rfl⟩ := fields_of_identifier hlaid
            rw [occurrencesAt_identifier] at hspell
            rw [respellAt_identifier, respellAt_identifier]
            cases hplace : isBindingPlace spot.parent spot.field with
            | false => rfl
            | true => rw [if_pos rfl, if_pos rfl, hspell (spot.path, name) (by simp [hplace])]
          · rw [occurrencesAt_node hlaid hkind] at hspell
            rw [respellAt_node hkind, respellAt_node hkind]
            refine congrArg _ (List.map_congr_left fun field hfield => ?_)
            refine congrArg (field.1, ·) (mapPlaced_congr fun b hb => ?_)
            have hbranch : b ∈ placedIn fields := List.mem_flatMap.2 ⟨field, hfield, hb⟩
            have hb' := ih b hbranch (isFormed_branch h hbranch)
              (spotAt (.node kind fields) spot.path b.1)
              fun o ho => hspell o (List.mem_flatMap.2 ⟨b, hbranch, ho⟩)
            rw [← placed_field hb]
            exact hb'
      | _ => rfl

/-- Only the names at occurrences count. -/
theorem respell_congr {spell' : Spelling} {t : Tree} (h : t.isFormed = true)
    (hspell : ∀ o ∈ t.occurrences, spell o.1 o.2 = spell' o.1 o.2) :
    t.respell spell = t.respell spell' :=
  respellAt_congr h ⟨none, none, []⟩ hspell

theorem respellAt_id (t : Tree) (binding : Bool) (path : Path) :
    respellAt (fun _ name => name) binding path t = t := by
  induction t using branch_induction generalizing binding path with
  | step t ih =>
      cases t with
      | node kind fields =>
          by_cases hkind : kind = "Identifier"
          · subst hkind
            have hfields : respellName (fun name => name) fields = fields := by
              rw [respellName]
              refine (List.map_congr_left fun field _ => ?_).trans (List.map_id fields)
              obtain ⟨key, value⟩ := field
              cases value <;> simp [mapText]
            simp [respellAt, hfields]
          · rw [respellAt_node hkind]
            refine congrArg _ ((List.map_congr_left fun field hfield => ?_).trans
              (List.map_id fields))
            have hvalue : respellIn (fun _ name => name) (names (.node kind fields) field.1) path
                field.1 field.2 = mapPlaced (fun _ t => t) field.1 field.2 :=
              mapPlaced_congr fun b hb => ih b (List.mem_flatMap.2 ⟨field, hfield, hb⟩) _ _
            rw [hvalue, mapPlaced_id]
            rfl
      | _ => rfl

/-- A spelling that gives every occurrence the name it has changes nothing. -/
theorem respell_eq_self {t : Tree} (h : t.isFormed = true)
    (hspell : ∀ o ∈ t.occurrences, spell o.1 o.2 = o.2) : t.respell spell = t :=
  (respell_congr h hspell).trans (respellAt_id t true [])

/-! ## Edits -/

theorem editItems_eq (new : Nat → Path → Option String) (items : List Tree) (start : Nat) :
    editItems new start items =
      (items.zipIdx start).map fun item => editWith (new item.2) item.1 := by
  induction items generalizing start with
  | nil => rfl
  | cons item rest ih => rw [editItems, ih, List.zipIdx_cons, List.map_cons]

theorem editFields_eq (new : Path → Option String) (fields : List (String × Tree)) :
    editFields new fields = fields.map fun field =>
      (field.1, mapPlaced (fun step => editWith fun path => new (step :: path)) field.1 field.2) := by
  induction fields with
  | nil => rfl
  | cons field rest ih =>
      obtain ⟨key, value⟩ := field
      rw [List.map_cons]
      cases value with
      | list items => rw [editFields, ih, editItems_eq, mapPlaced]
      | _ =>
          rw [editFields, ih]
          · rfl
          · simp

/-- Edits that touch no node but occurrences spell these anew. -/
theorem editWith_eq_respellAt (new : Path → Option String) {t : Tree} (h : t.isFormed = true)
    (spot : Spot)
    (hnew : ∀ visit ∈ t.visitsAt spot, (new visit.path).isSome = true →
      visit.isIdentifier = true ∧ visit.isBinding = true) :
    editWith (fun path => new (spot.path ++ path)) t =
      respellAt (fun path name => (new path).getD name) (isBindingPlace spot.parent spot.field)
        spot.path t := by
  induction t using branch_induction generalizing spot with
  | step t ih =>
      cases t with
      | node kind fields =>
          obtain ⟨hlaid, -⟩ := isFormed_node.1 h
          rw [visitsAt_node hlaid] at hnew
          have hroot := hnew _ List.mem_cons_self
          rw [editWith, List.append_nil]
          by_cases hkind : kind = "Identifier"
          · subst hkind
            obtain ⟨name, rfl⟩ := fields_of_identifier hlaid
            rw [respellAt_identifier]
            cases hpath : new spot.path with
            | none => simp [withName, editFields, editWith]
            | some name' =>
                have hplace : isBindingPlace spot.parent spot.field = true :=
                  (hroot (by simp [hpath])).2
                simp [withName, editFields, editWith, hplace]
          · have hnone : new spot.path = none := by
              cases hpath : new spot.path with
              | none => rfl
              | some name' =>
                  have := (hroot (by simp [hpath])).1
                  exact absurd this (by simp [Visit.isIdentifier, isKind, kind?, hkind])
            rw [hnone, withName, editFields_eq, respellAt_node hkind]
            refine congrArg _ (List.map_congr_left fun field hfield => ?_)
            refine congrArg (field.1, ·) (mapPlaced_congr fun b hb => ?_)
            have hbranch : b ∈ placedIn fields := List.mem_flatMap.2 ⟨field, hfield, hb⟩
            have hb' := ih b hbranch (isFormed_branch h hbranch)
              (spotAt (.node kind fields) spot.path b.1)
              fun visit hvisit =>
                hnew visit (List.mem_cons_of_mem _ (List.mem_flatMap.2 ⟨b, hbranch, hvisit⟩))
            simp only [spotAt, List.append_assoc, List.singleton_append] at hb'
            rw [hb', ← placed_field hb]
            rfl
      | _ => rfl

/-- Edits at occurrences spell these anew. -/
theorem edit_eq_respell {edits : Edits} {t : Tree} (h : t.isFormed = true)
    (hedits : ∀ e ∈ edits, e.1 ∈ t.occurrences.map Prod.fst) :
    t.edit edits = t.respell fun path name => (edits.lookup path).getD name := by
  rw [edit]
  split
  · rename_i hempty
    rw [List.isEmpty_iff.1 hempty]
    exact (respellAt_id t true []).symm
  · refine editWith_eq_respellAt (fun path => edits.lookup path) h ⟨none, none, []⟩
      fun visit hvisit hsome => ?_
    -- The path of an edit is that of an occurrence, and no other node has it.
    obtain ⟨e, he, hpath⟩ := List.lookup_isSome_iff.1 hsome
    obtain ⟨o, ho, hpath'⟩ := List.mem_map.1 (hedits e he)
    obtain ⟨visit', hvisit', hocc⟩ := List.mem_filterMap.1 ho
    obtain ⟨hpath'', hidentifier⟩ := occurrence?_path hocc
    have hsame : visit'.path = visit.path := by rw [← hpath'', hpath', beq_iff_eq.1 hpath]
    have hvisits := List.inj_on_of_nodup_map (visits_paths_nodup h) hvisit' hvisit hsame
    exact hvisits ▸ hidentifier

end NameRecovery.Tree
