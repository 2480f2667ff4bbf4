import NameRecovery.Proofs.Tree.Path
import NameRecovery.Proofs.Tree.Preorder
import NameRecovery.Proofs.Tree.Respell

/-!
# Reading a tree that has been edited

Edits change names and nothing else, so an edited tree has its nodes where they were.  A path
still leads to the same node, with the names below it replaced; and what lies apart from all
edits is what it was.

* `Tree.at?_editWith`, `Tree.at?_edit` — what a path leads to after edits;
* `Tree.edit_edit` — edits made one after the other are edits made at once;
* `Tree.get?_editWith_apart`, `Tree.isBindingPlace_editWith`, `Tree.childSteps_editWith` — what
  edits do not touch;
* `Apart`, `Tree.at?_edit_apart` — a node apart from all edits stays as it is.
-/

namespace NameRecovery

/-- Two paths of which neither leads through the other's end. -/
def Apart (p q : Path) : Prop :=
  ¬ p <+: q ∧ ¬ q <+: p

namespace Apart

variable {p q : Path}

theorem append (h : Apart p q) (rest : Path) : Apart (p ++ rest) q := by
  refine ⟨fun hway => h.1 ((List.prefix_append p rest).trans hway), fun hway => ?_⟩
  rcases List.prefix_or_prefix_of_prefix hway (List.prefix_append p rest) with hq | hp
  · exact h.2 hq
  · exact h.1 hp

/-- Paths that lead through different branches are apart. -/
theorem of_steps {step step' : Step} (hne : step ≠ step') (h : p ++ [step'] <+: q) :
    Apart (p ++ [step]) q := by
  refine ⟨fun hway => hne (Tree.step_unique hway h), fun hway => ?_⟩
  have hsteps := h.trans hway
  obtain ⟨rest, heq⟩ := hsteps
  rw [List.append_assoc, List.append_cancel_left_eq] at heq
  exact hne (List.cons.inj heq).1.symm

end Apart

namespace Tree

variable {new : Path → Option String}

/-! ## Nodes stay where they are -/

theorem editWith_ne_list {t : Tree} (h : ∀ items, t ≠ .list items) (items : List Tree) :
    editWith new t ≠ .list items := by
  cases t with
  | list items => exact absurd rfl (h items)
  | _ => simp [editWith]

@[simp] theorem kind?_editWith (t : Tree) : (t.editWith new).kind? = t.kind? := by
  cases t <;> simp [editWith, kind?]

@[simp] theorem isNode_editWith (t : Tree) : (t.editWith new).isNode = t.isNode := by
  rw [isNode, isNode, kind?_editWith]

@[simp] theorem isKind_editWith (kind : String) (t : Tree) :
    (t.editWith new).isKind kind = t.isKind kind := by
  rw [isKind, isKind, kind?_editWith]

/-- The value of a field with the names below it replaced. -/
def editIn (new : Path → Option String) (key : String) : Tree → Tree :=
  mapPlaced (fun step => editWith fun path => new (step :: path)) key

theorem editWith_node (new : Path → Option String) (kind : String)
    (fields : List (String × Tree)) :
    (Tree.node kind fields).editWith new = .node kind (withName (new [])
      (fields.map fun field => (field.1, editIn new field.1 field.2))) := by
  rw [editWith, editFields_eq]
  rfl

theorem placed_editIn (key : String) (t : Tree) :
    placed key (editIn new key t) =
      (placed key t).map fun b => (b.1, b.2.editWith fun path => new (b.1 :: path)) :=
  placed_mapPlaced (fun _ _ hlist => editWith_ne_list hlist) key t

theorem editIn_editIn (new' : Path → Option String) {key : String} {t : Tree}
    (h : ∀ b ∈ placed key t, ∀ new new' : Path → Option String,
      (b.2.editWith new).editWith new' = b.2.editWith fun path => (new' path).or (new path)) :
    editIn new' key (editIn new key t) =
      editIn (fun path => (new' path).or (new path)) key t := by
  have hlist : ∀ (step : Step) (t : Tree), (∀ items, t ≠ .list items) →
      ∀ items, (t.editWith fun path => new (step :: path)) ≠ .list items :=
    fun _ _ hne => editWith_ne_list hne
  rw [editIn, editIn, mapPlaced_mapPlaced hlist]
  exact mapPlaced_congr fun b hb => h b hb _ _

/-- A field with no edits in it keeps its value. -/
theorem editIn_eq_self {key : String} {t : Tree}
    (h : ∀ b ∈ placed key t, (b.2.editWith fun path => new (b.1 :: path)) = b.2) :
    editIn new key t = t :=
  (mapPlaced_congr h).trans (mapPlaced_id key t)

theorem isSet_editIn (key : String) (t : Tree) : (editIn new key t).isSet = t.isSet := by
  cases t with
  | list items => cases items <;> rfl
  | _ => rfl

theorem branches_editWith (h : new [] = none) (t : Tree) :
    (t.editWith new).branches =
      t.branches.map fun b => (b.1, b.2.editWith fun path => new (b.1 :: path)) := by
  cases t with
  | node kind fields =>
      rw [editWith_node, h, withName, branches, branches, placedIn, placedIn, List.flatMap_map,
        List.map_flatMap]
      exact List.flatMap_congr fun field _ => placed_editIn field.1 field.2
  | _ => rfl

theorem branch?_editWith (h : new [] = none) (t : Tree) (step : Step) :
    (t.editWith new).branch? step =
      (t.branch? step).map (editWith fun path => new (step :: path)) := by
  rw [branch?, branches_editWith h, branch?,
    lookup_map_value fun step value => editWith (fun path => new (step :: path)) value]

/-- **A path leads to the node it led to**, edited below, unless an edit lies on the way. -/
theorem at?_editWith {path : Path}
    (h : ∀ before step, before ++ [step] <+: path → new before = none) (t : Tree) :
    (t.editWith new).at? path = (t.at? path).map (editWith fun rest => new (path ++ rest)) := by
  induction path generalizing t new with
  | nil => rfl
  | cons step path ih =>
      have hhere : new [] = none := h [] step (List.prefix_append [step] path)
      rw [at?, at?, branch?_editWith hhere]
      cases t.branch? step with
      | none => rfl
      | some value =>
          exact ih (fun before next hway =>
            h (step :: before) next (List.cons_prefix_cons.2 ⟨rfl, hway⟩)) value

/-! ## Edits one after the other -/

/-- No edits change nothing. -/
theorem editWith_none (t : Tree) : t.editWith (fun _ => none) = t := by
  induction t using branch_induction with
  | step t ih =>
      cases t with
      | node kind fields =>
          rw [editWith_node, withName]
          refine congrArg _ ((List.map_congr_left fun field hfield => ?_).trans
            (List.map_id fields))
          rw [editIn_eq_self fun b hb => ih b (List.mem_flatMap.2 ⟨field, hfield, hb⟩)]
          rfl
      | _ => rfl

theorem edit_eq_editWith (edits : Edits) (t : Tree) :
    t.edit edits = t.editWith fun path => edits.lookup path := by
  rw [edit]
  split
  · rename_i hempty
    rw [List.isEmpty_iff.1 hempty]
    exact (editWith_none t).symm
  · rfl

/-- A node gets its new name whether the values of its fields are edited before or after. -/
theorem withName_map (name? : Option String) (fields : List (String × Tree)) :
    ((withName name? fields).map fun field => (field.1, editIn new field.1 field.2)) =
      withName name? (fields.map fun field => (field.1, editIn new field.1 field.2)) := by
  cases name? with
  | none => rfl
  | some name =>
      rw [withName, withName, List.map_map, List.map_map]
      refine List.map_congr_left fun field _ => ?_
      by_cases hname : field.1 = "name"
      · simp only [Function.comp, if_pos hname]
        rfl
      · simp only [Function.comp, if_neg hname]

theorem withName_withName (name? name?' : Option String) (fields : List (String × Tree)) :
    withName name?' (withName name? fields) = withName (name?'.or name?) fields := by
  cases name?' with
  | none => rfl
  | some name' =>
      cases name? with
      | none => rfl
      | some name =>
          rw [Option.some_or, withName, withName, withName, List.map_map]
          refine List.map_congr_left fun field _ => ?_
          by_cases hname : field.1 = "name"
          · simp only [Function.comp, if_pos hname, if_true]
          · simp only [Function.comp, if_neg hname]

/-- Of two edits of one node the later one counts. -/
theorem editWith_editWith (new' : Path → Option String) (t : Tree) :
    (t.editWith new).editWith new' = t.editWith fun path => (new' path).or (new path) := by
  induction t using branch_induction generalizing new new' with
  | step t ih =>
      cases t with
      | node kind fields =>
          rw [editWith_node, editWith_node, editWith_node, withName_map, withName_withName,
            List.map_map]
          refine congrArg _ (congrArg _ (List.map_congr_left fun field hfield => ?_))
          refine congrArg (field.1, ·) (editIn_editIn new' fun b hb new new' => ?_)
          exact ih b (List.mem_flatMap.2 ⟨field, hfield, hb⟩) new'
      | _ => rfl

/-- **Edits made one after the other** are edits made at once. -/
theorem edit_edit (edits edits' : Edits) (t : Tree) :
    (t.edit edits).edit edits' = t.edit (edits' ++ edits) := by
  rw [edit_eq_editWith, edit_eq_editWith, edit_eq_editWith, editWith_editWith]
  congr 1
  funext path
  rw [List.lookup_append]

/-! ## What edits do not touch -/

theorem lookup_withName {key : String} (hkey : key ≠ "name") (name? : Option String)
    (fields : List (String × Tree)) : (withName name? fields).lookup key = fields.lookup key := by
  cases name? with
  | none => rfl
  | some name =>
      have hmap : withName (some name) fields = fields.map fun field =>
          (field.1, if field.1 = "name" then .text name else field.2) := by
        rw [withName]
        refine List.map_congr_left fun field _ => ?_
        by_cases hname : field.1 = "name"
        · rw [if_pos hname, if_pos hname, hname]
        · rw [if_neg hname, if_neg hname]
      rw [hmap, lookup_map_value fun key value => if key = "name" then Tree.text name else value]
      simp [hkey]

theorem get?_editWith {key : String} (hkey : key ≠ "name") (htype : key ≠ "type") (t : Tree) :
    (t.editWith new).get? key =
      if t.isNode then (t.get? key).map (editIn new key) else t.get? key := by
  cases t with
  | node kind fields =>
      rw [editWith_node]
      simp only [get?, if_neg htype, lookup_withName hkey]
      rw [lookup_map_value (editIn new) key fields]
      rfl
  | _ => rfl

theorem has_editWith {key : String} (hkey : key ≠ "name") (t : Tree) :
    (t.editWith new).has key = t.has key := by
  by_cases htype : key = "type"
  · subst htype
    cases t <;> simp [editWith, has, get, get?]
  · rw [has, has, get, get, get?_editWith hkey htype]
    split
    · cases t.get? key with
      | none => rfl
      | some value => exact isSet_editIn key value
    · rfl

/-- A field keeps its value if it is not the name and no edit lies in it. -/
theorem get?_editWith_apart {key : String} (hkey : key ≠ "name")
    (h : ∀ index path, new (⟨key, index⟩ :: path) = none) (t : Tree) :
    (t.editWith new).get? key = t.get? key := by
  by_cases htype : key = "type"
  · subst htype
    cases t <;> simp [editWith, get?]
  · have hsame : ∀ value, editIn new key value = value := fun value =>
      editIn_eq_self fun b hb => by
        have hstep : b.1 = ⟨key, b.1.index⟩ := by rw [← placed_field hb]
        rw [hstep]
        simp only [h]
        exact editWith_none b.2
    rw [get?_editWith hkey htype]
    split
    · cases t.get? key with
      | none => rfl
      | some value => rw [Option.map_some, hsame]
    · rfl

/-- Edits move no binding place. -/
theorem isBindingPlace_editWith (parent : Tree) (field : Option String) :
    isBindingPlace (some (parent.editWith new)) field = isBindingPlace (some parent) field := by
  have hcomputed : (parent.editWith new).has "computed" = parent.has "computed" :=
    has_editWith (by decide) parent
  simp only [isBindingPlace, kind?_editWith, hcomputed]

/-- Edits of other nodes leave the children where they are. -/
theorem childSteps_editWith {new : Path → Option String} (hnew : new [] = none) (t : Tree) :
    (t.editWith new).childSteps = t.childSteps := by
  cases t with
  | node kind fields =>
      have hfield : ∀ field : String × Tree,
          ((placed field.1 (editIn new field.1 field.2)).filter fun b => b.2.isNode).map Prod.fst =
            ((placed field.1 field.2).filter fun b => b.2.isNode).map Prod.fst := by
        intro field
        rw [placed_editIn, List.filter_map, List.map_map]
        simp only [Function.comp_def, isNode_editWith]
      rw [editWith_node, hnew, withName]
      simp only [childSteps, childBranches, List.map_map, Function.comp_def, inDocumentOrder_map,
        List.map_flatten, hfield]
  | _ => rfl

/-- **A node apart from all edits** stays as it is. -/
theorem at?_edit_apart {edits : Edits} {path : Path} (h : ∀ e ∈ edits, Apart path e.1) (t : Tree) :
    (t.edit edits).at? path = t.at? path := by
  have hnone : ∀ q, (q <+: path ∨ path <+: q) → edits.lookup q = none := by
    intro q hq
    refine List.lookup_eq_none_iff.2 fun e he => ?_
    have hne : q ≠ e.1 := by
      rintro rfl
      exact hq.elim (h e he).2 (h e he).1
    simpa using hne
  rw [edit_eq_editWith, at?_editWith fun before step hway =>
    hnone before (.inl ((List.prefix_append before [step]).trans hway))]
  have hbelow : (fun rest => edits.lookup (path ++ rest)) = fun _ => none := by
    funext rest
    exact hnone _ (.inr (List.prefix_append path rest))
  rw [hbelow]
  cases t.at? path with
  | none => rfl
  | some value => exact congrArg some (editWith_none value)

/-- On the way to a node apart from all edits no binding place moves. -/
theorem isBindingPlace_edit_before {edits : Edits} {path before : Path}
    (h : ∀ e ∈ edits, Apart path e.1) (hbefore : before <+: path) (t : Tree)
    (field : Option String) :
    isBindingPlace ((t.edit edits).at? before) field = isBindingPlace (t.at? before) field := by
  have hnone : ∀ q, q <+: path → edits.lookup q = none := by
    intro q hq
    refine List.lookup_eq_none_iff.2 fun e he => ?_
    have hne : q ≠ e.1 := by
      rintro rfl
      exact (h e he).2 hq
    simpa using hne
  rw [edit_eq_editWith, at?_editWith fun q step hway =>
    hnone q ((List.prefix_append q [step]).trans (hway.trans hbefore))]
  cases t.at? before with
  | none => rfl
  | some parent => exact isBindingPlace_editWith parent field

end Tree
end NameRecovery
