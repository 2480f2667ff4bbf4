import NameRecovery.Proofs.Tree.Occurrence

/-!
# Following a path

A path leads from a node to a value below it, one branch a step.  On a formed tree the paths of
the visited nodes lead to them, and every node a path leads to is visited.

* `Tree.at?` — the value a path leads to;
* `Tree.Place` — a node to visit, by its path and that of its parent;
* `Tree.at?_of_visit`, `Tree.visit_of_at?` — paths and visits.
-/

namespace NameRecovery.Tree

/-- The value right below a node that a step leads to. -/
def branch? (t : Tree) (step : Step) : Option Tree :=
  t.branches.lookup step

/-- The value that a path leads to. -/
def at? (t : Tree) : Path → Option Tree
  | [] => some t
  | step :: rest => (t.branch? step).bind fun value => value.at? rest

/-- A node to visit, with the parent and the field it was found in. -/
structure Place where
  /-- The path of the node. -/
  path : Path
  /-- The path of its parent; the root has none. -/
  parent : Option Path
  /-- The field of the parent. -/
  field : Option String

/-- The place of the root. -/
def Place.root : Place :=
  ⟨[], none, none⟩

/-- The place right below the node at a path that a step leads to. -/
def Place.below (path : Path) (step : Step) : Place :=
  ⟨path ++ [step], some path, some step.field⟩

theorem at?_cons {t value : Tree} {step : Step} (h : t.branch? step = some value) (rest : Path) :
    t.at? (step :: rest) = value.at? rest := by
  rw [at?, h, Option.bind_some]

theorem at?_append (t : Tree) (path rest : Path) :
    t.at? (path ++ rest) = (t.at? path).bind fun value => value.at? rest := by
  induction path generalizing t with
  | nil => rfl
  | cons step path ih =>
      rw [List.cons_append, at?, at?, Option.bind_assoc]
      exact Option.bind_congr fun value _ => ih value

theorem mem_branches_of_branch? {t value : Tree} {step : Step} (h : t.branch? step = some value) :
    (step, value) ∈ t.branches := by
  obtain ⟨l₁, l₂, heq, -⟩ := List.lookup_eq_some_iff.1 h
  rw [heq]
  simp

/-- The branches of a formed node are found by their steps. -/
theorem branch?_of_mem {kind : String} {fields : List (String × Tree)}
    (h : isLaidOut kind fields = true) {b : Step × Tree} (hb : b ∈ placedIn fields) :
    (Tree.node kind fields).branch? b.1 = some b.2 :=
  lookup_of_mem (steps_nodup h) hb

/-- The path of a visited node leads to it. -/
theorem at?_of_visit {t : Tree} (h : t.isFormed = true) {spot : Spot} {v : Visit}
    (hv : v ∈ t.visitsAt spot) : ∃ path, v.path = spot.path ++ path ∧ t.at? path = some v.node := by
  induction t using branch_induction generalizing spot with
  | step t ih =>
      cases t with
      | node kind fields =>
          have hlaid := (isFormed_node.1 h).1
          rw [visitsAt_node hlaid] at hv
          rcases List.mem_cons.1 hv with rfl | hv
          · exact ⟨[], (List.append_nil _).symm, rfl⟩
          · obtain ⟨b, hb, hv⟩ := List.mem_flatMap.1 hv
            obtain ⟨path, hpath, hat⟩ := ih b hb (isFormed_branch h hb) hv
            refine ⟨b.1 :: path, ?_, ?_⟩
            · rw [hpath, spotAt, List.append_assoc, List.singleton_append]
            · rw [at?_cons (branch?_of_mem hlaid hb), hat]
      | _ => exact absurd hv List.not_mem_nil

/-- A node that a path leads to is visited. -/
theorem visit_of_at? {t value : Tree} (h : t.isFormed = true) {path : Path}
    (hat : t.at? path = some value) (hnode : value.isNode = true) (spot : Spot) :
    ∃ v ∈ t.visitsAt spot, v.path = spot.path ++ path ∧ v.node = value := by
  induction path generalizing t spot with
  | nil =>
      obtain rfl := Option.some.inj hat
      cases t with
      | node kind fields =>
          rw [visitsAt_node (isFormed_node.1 h).1]
          exact ⟨_, List.mem_cons_self, (List.append_nil _).symm, rfl⟩
      | _ => cases hnode
  | cons step rest ih =>
      obtain ⟨next, hnext, hrest⟩ := Option.bind_eq_some_iff.1 hat
      have hb := mem_branches_of_branch? hnext
      cases t with
      | node kind fields =>
          obtain ⟨v, hv, hpath, hvalue⟩ :=
            ih (isFormed_branch h hb) hrest (spotAt (.node kind fields) spot.path step)
          refine ⟨v, ?_, ?_, hvalue⟩
          · rw [visitsAt_node (isFormed_node.1 h).1]
            exact List.mem_cons_of_mem _ (List.mem_flatMap.2 ⟨_, hb, hv⟩)
          · rw [hpath, spotAt, List.append_assoc, List.singleton_append]
      | _ => exact absurd hb List.not_mem_nil

end NameRecovery.Tree
