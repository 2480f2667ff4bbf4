import NameRecovery.Proofs.Tree.DepthFirst
import NameRecovery.Proofs.Tree.Proper

/-!
# Walks in document order

A walk through a tree keeps the nodes left on a stack.  It meets the nodes that the recursive
definition lists, whatever their kinds: a node first, and then its children one by one, each with
all that is below it.

* `Tree.childBranches` — the children of a node, with their places;
* `Seen.expand` — what the walk yields at a node, and what it pushes;
* `Tree.Reached` — the visits that can be reached from the root;
* `Tree.Precedes` — the order in which nodes are met;
* `Tree.walked` — what a walk meets, how often, and in which order.
-/

namespace NameRecovery

namespace Tree

/-! ## Children -/

/-- The nodes right below a node that a walk visits, with their places, in document order. -/
def childBranches : Tree → List (Step × Tree)
  | .node kind fields =>
    (inDocumentOrder kind (fields.map fun field =>
      (field.1, (placed field.1 field.2).filter fun b => b.2.isNode))).flatten
  | _ => []

/-- The steps to the nodes right below. -/
def childSteps (t : Tree) : List Step :=
  t.childBranches.map Prod.fst

theorem nodesIn_eq (key : String) (t : Tree) :
    (t.nodesIn.map fun child => (key, child)) =
      ((placed key t).filter fun b => b.2.isNode).map fun b => (b.1.field, b.2) := by
  cases t with
  | list items =>
      have hitems : items.filter isNode = (items.zipIdx.filter fun item => item.1.isNode).map
          Prod.fst := by
        conv => lhs; rw [← List.zipIdx_map_fst 0 items, List.filter_map]
        rfl
      rw [nodesIn, placed, List.filter_map, List.map_map, hitems, List.map_map]
      rfl
  | _ => simp [nodesIn, placed, isNode, kind?]

/-- They are the children of the node. -/
theorem children_eq (t : Tree) : t.children = t.childBranches.map fun b => (b.1.field, b.2) := by
  cases t with
  | node kind fields =>
      rw [children, childBranches, inDocumentOrder_map, inDocumentOrder_map, ← List.flatMap_def,
        ← List.flatMap_def, List.map_flatMap]
      exact List.flatMap_congr fun field _ => nodesIn_eq field.1 field.2
  | _ => rfl

/-- On a formed node they are the branches that are nodes. -/
theorem childBranches_eq {kind : String} {fields : List (String × Tree)}
    (h : isLaidOut kind fields = true) :
    (Tree.node kind fields).childBranches = (placedIn fields).filter fun b => b.2.isNode := by
  rw [childBranches, flatten_inDocumentOrder h, placedIn, List.filter_flatMap]
  intro field _ hdata
  obtain ⟨hplaced, hnode⟩ := placed_data field.1 hdata
  rw [hplaced, List.filter_singleton, hnode]
  rfl

theorem childBranches_node (kind : String) (fields : List (String × Tree)) :
    (Tree.node kind fields).childBranches = (visitedFields kind fields).flatMap fun field =>
      (placed field.1 field.2).filter fun b => b.2.isNode := by
  rw [childBranches, inDocumentOrder_map, List.flatMap_def]

/-- They are the branches entered that are nodes. -/
theorem childBranches_eq_filter (kind : String) (fields : List (String × Tree)) :
    (Tree.node kind fields).childBranches =
      (visitedBranches kind fields).filter fun b => b.2.isNode := by
  rw [childBranches_node, visitedBranches, placedIn, List.filter_flatMap]

/-- The children of a proper node are found by different steps. -/
theorem childSteps_nodup {t : Tree} (h : t.isProper = true) : t.childSteps.Nodup := by
  cases t with
  | node kind fields =>
      have hsteps := placedIn_steps_nodup (visitedFields_keys_nodup kind (isProper_node.1 h).1)
      rw [childSteps, childBranches_eq_filter]
      exact hsteps.sublist (List.filter_sublist.map _)
  | _ => exact List.nodup_nil

/-- An identifier has no children. -/
theorem childSteps_identifier (fields : List (String × Tree)) :
    (Tree.node "Identifier" fields).childSteps = [] := by
  rw [childSteps, childBranches_eq_filter, visitedBranches_identifier]
  rfl

/-- Children are branches, and nodes. -/
theorem mem_childBranches {t : Tree} {b : Step × Tree} (h : b ∈ t.childBranches) :
    b ∈ t.branches ∧ b.2.isNode = true := by
  cases t with
  | node kind fields =>
      rw [childBranches_node] at h
      obtain ⟨field, hfield, hb⟩ := List.mem_flatMap.1 h
      obtain ⟨hplaced, hnode⟩ := List.mem_filter.1 hb
      exact ⟨List.mem_flatMap.2 ⟨field, (mem_of_visitedFields hfield).1, hplaced⟩, hnode⟩
  | _ => exact absurd h List.not_mem_nil

/-- What holds of a tree once it holds of its children, holds of all trees. -/
@[elab_as_elim]
theorem child_induction {P : Tree → Prop} (t : Tree)
    (step : ∀ t, (∀ b ∈ t.childBranches, P b.2) → P t) : P t :=
  branch_induction t fun t ih => step t fun b hb => ih b (mem_childBranches hb).1

/-- Nothing is lost with the values that are no nodes if nothing comes of them. -/
theorem flatMap_nodes {α : Type} (bs : List (Step × Tree)) {part : Step × Tree → List α}
    (h : ∀ b, b.2.isNode = false → part b = []) :
    (bs.filter fun b => b.2.isNode).flatMap part = bs.flatMap part := by
  induction bs with
  | nil => rfl
  | cons b rest ih =>
      cases hnode : b.2.isNode with
      | true => rw [List.filter_cons_of_pos (by simpa using hnode), List.flatMap_cons,
          List.flatMap_cons, ih]
      | false => rw [List.filter_cons_of_neg (by simp [hnode]), List.flatMap_cons, ih, h b hnode,
          List.nil_append]

/-- A node is visited first, and then its children in order, each with all that is below it. -/
theorem visitsAt_children (kind : String) (fields : List (String × Tree)) (spot : Spot) :
    (Tree.node kind fields).visitsAt spot =
      ⟨.node kind fields, spot.parent, spot.field, spot.path⟩ ::
        (Tree.node kind fields).childBranches.flatMap fun b =>
          visitsAt (spotAt (.node kind fields) spot.path b.1) b.2 := by
  rw [visitsAt_eq, visitedBranches, placedIn, childBranches_node, List.flatMap_assoc,
    List.flatMap_assoc]
  refine congrArg _ (List.flatMap_congr fun field _ => ?_)
  exact (flatMap_nodes _ fun b hnode => visitsAt_of_not_node hnode _).symm

end Tree

/-! ## With a stack -/

/-- A node as a walk sees it. -/
structure Seen where
  /-- The node. -/
  node : Tree
  /-- Its parent; the root has none. -/
  parent : Option Tree
  /-- The field of the parent it stands in. -/
  field : Option String

/-- The visited node as a walk sees it. -/
def Visit.seen (visit : Visit) : Seen :=
  ⟨visit.node, visit.parent, visit.field⟩

/-- A walk yields the node that it takes off the stack, and pushes its children. -/
def Seen.expand : DepthFirst.Expansion Seen Seen :=
  fun seen => .ok ([seen], seen.node.children.map fun child =>
    ⟨child.2, some seen.node, some child.1⟩)

namespace Tree

open DepthFirst

/-- The recursion that visits a node lists it, and then what is below its children. -/
theorem lists_visitsAt {t : Tree} (h : t.isNode = true) (spot : Spot) :
    Lists Seen.expand [⟨t, spot.parent, spot.field⟩] ((t.visitsAt spot).map Visit.seen) := by
  induction t using child_induction generalizing spot with
  | step t ih =>
      cases t with
      | node kind fields =>
          have hexpand : Seen.expand ⟨.node kind fields, spot.parent, spot.field⟩ =
              .ok ([⟨.node kind fields, spot.parent, spot.field⟩],
                (Tree.node kind fields).childBranches.map fun b =>
                  ⟨b.2, some (.node kind fields), some b.1.field⟩) := by
            rw [Seen.expand, children_eq, List.map_map]
            rfl
          rw [visitsAt_children, List.map_cons, List.map_flatMap, ← List.singleton_append]
          refine .single hexpand (.flatMap fun b hb => ?_)
          exact ih b hb (mem_childBranches hb).2 (spotAt (.node kind fields) spot.path b.1)
      | _ => cases h

/-! ## What is visited -/

/-- The visits that lead from the root to a node, each to a child of the one before. -/
inductive Reached (t : Tree) : Visit → Prop where
  | root : Reached t ⟨t, none, none, []⟩
  | child {visit : Visit} {b : Step × Tree} :
      Reached t visit → b ∈ visit.node.childBranches →
      Reached t ⟨b.2, some visit.node, some b.1.field, visit.path ++ [b.1]⟩

/-- The visit of a child follows from that of its parent. -/
theorem child_mem_visitsAt {t : Tree} {spot : Spot} {visit : Visit} (h : visit ∈ t.visitsAt spot)
    {b : Step × Tree} (hb : b ∈ visit.node.childBranches) :
    ⟨b.2, some visit.node, some b.1.field, visit.path ++ [b.1]⟩ ∈ t.visitsAt spot := by
  induction t using child_induction generalizing spot with
  | step t ih =>
      cases t with
      | node kind fields =>
          rw [visitsAt_children] at h ⊢
          refine List.mem_cons_of_mem _ (List.mem_flatMap.2 ?_)
          rcases List.mem_cons.1 h with rfl | h
          · refine ⟨b, hb, ?_⟩
            have hnode := (mem_childBranches hb).2
            cases hvalue : b.2 with
            | node k fs => rw [visitsAt_children]; exact List.mem_cons_self
            | _ => rw [hvalue] at hnode; cases hnode
          · obtain ⟨b', hb', h⟩ := List.mem_flatMap.1 h
            exact ⟨b', hb', ih b' hb' h⟩
      | _ => exact absurd h List.not_mem_nil

theorem reached_of_mem_visitsAt {t root : Tree} {spot : Spot}
    (hspot : Reached root ⟨t, spot.parent, spot.field, spot.path⟩) {visit : Visit}
    (h : visit ∈ t.visitsAt spot) : Reached root visit := by
  induction t using child_induction generalizing spot with
  | step t ih =>
      cases t with
      | node kind fields =>
          rw [visitsAt_children] at h
          rcases List.mem_cons.1 h with rfl | h
          · exact hspot
          · obtain ⟨b, hb, h⟩ := List.mem_flatMap.1 h
            exact ih b hb (.child hspot hb) h
      | _ => exact absurd h List.not_mem_nil

/-- Only nodes are visited. -/
theorem isNode_visit {t : Tree} {spot : Spot} {visit : Visit} (h : visit ∈ t.visitsAt spot) :
    visit.node.isNode = true := by
  induction t using child_induction generalizing spot with
  | step t ih =>
      cases t with
      | node kind fields =>
          rw [visitsAt_children] at h
          rcases List.mem_cons.1 h with rfl | h
          · rfl
          · obtain ⟨b, hb, h⟩ := List.mem_flatMap.1 h
            exact ih b hb h
      | _ => exact absurd h List.not_mem_nil

/-- Just what can be reached is visited. -/
theorem mem_visits_iff {t : Tree} (h : t.isNode = true) {visit : Visit} :
    visit ∈ t.visits ↔ Reached t visit := by
  constructor
  · exact reached_of_mem_visitsAt .root
  · intro hvisit
    induction hvisit with
    | root =>
        cases t with
        | node kind fields => rw [visits, visitsAt_children]; exact List.mem_cons_self
        | _ => cases h
    | child _ hb ih => exact child_mem_visitsAt ih hb

/-! ## In which order -/

/-- The fields of a node that hold its children, in order: those of its kind, or all with a node
in them if the kind is not known. -/
def childKeys : Tree → List String
  | .node kind fields =>
    match childFields.find? kind with
    | some keys => keys
    | none => (fields.filter fun field => !field.2.nodesIn.isEmpty).map Prod.fst
  | _ => []

/-- Does the one step lead from a node to an earlier place than the other: to an earlier field, or
further to the front of the same list? -/
def StepsInOrder (t : Tree) (first second : Step) : Prop :=
  [first.field, second.field].Sublist t.childKeys ∨
    first.field = second.field ∧ first.index < second.index

/-- Among these visits, does one node come before the other?  It is around the other, or below
some node it stands in, or below, an earlier child. -/
def Precedes (visits : List Visit) (first second : Visit) : Prop :=
  (first.path <+: second.path ∧ first.path ≠ second.path) ∨
    ∃ around ∈ visits, ∃ step step', around.node.StepsInOrder step step' ∧
      around.path ++ [step] <+: first.path ∧ around.path ++ [step'] <+: second.path

theorem Precedes.mono {visits visits' : List Visit} {first second : Visit}
    (h : Precedes visits first second) (hsub : visits ⊆ visits') :
    Precedes visits' first second := by
  rcases h with h | ⟨around, haround, h⟩
  · exact .inl h
  · exact .inr ⟨around, hsub haround, h⟩

theorem placed_pairwise (key : String) (t : Tree) :
    (placed key t).Pairwise fun b b' => b.1.field = b'.1.field ∧ b.1.index < b'.1.index := by
  cases t with
  | list items =>
      rw [placed, List.pairwise_map]
      have hindex : (items.zipIdx.map Prod.snd).Pairwise (· < ·) := by
        rw [List.zipIdx_map_snd]
        exact List.pairwise_lt_range'
      exact (List.pairwise_map.1 hindex).imp fun hlt => ⟨rfl, hlt⟩
  | _ => exact List.pairwise_singleton _ _

theorem nodesIn_isEmpty {key : String} {t : Tree} {b : Step × Tree} (hb : b ∈ placed key t)
    (hnode : b.2.isNode = true) : t.nodesIn.isEmpty = false := by
  cases t with
  | list items =>
      obtain ⟨item, hitem, rfl⟩ := List.mem_map.1 hb
      rw [List.isEmpty_eq_false_iff]
      exact List.ne_nil_of_mem (List.mem_filter.2 ⟨List.fst_mem_of_mem_zipIdx hitem, hnode⟩)
  | _ =>
      rw [List.mem_singleton.1 hb] at hnode
      first | rfl | cases hnode

/-- Fields with nodes in them stand in the order of the children. -/
theorem visitedFields_pairwise (kind : String) (fields : List (String × Tree)) :
    (visitedFields kind fields).Pairwise fun field field' =>
      field.2.nodesIn.isEmpty = false → field'.2.nodesIn.isEmpty = false →
        [field.1, field'.1].Sublist (Tree.node kind fields).childKeys := by
  rw [List.pairwise_iff_forall_sublist]
  intro field field' hsub hnodes hnodes'
  rw [childKeys]
  cases hfind : childFields.find? kind with
  | some keys =>
      exact (hsub.map Prod.fst).trans (visitedFields_keys_sublist hfind fields)
  | none =>
      have hall : visitedFields kind fields = fields := by rw [visitedFields, hfind]
      have hkept := hsub.filter fun field => !field.2.nodesIn.isEmpty
      rw [hall] at hkept
      simpa [hnodes, hnodes'] using hkept.map Prod.fst

/-- The children of a node are listed in order. -/
theorem childBranches_pairwise (kind : String) (fields : List (String × Tree)) :
    (Tree.node kind fields).childBranches.Pairwise fun b b' =>
      (Tree.node kind fields).StepsInOrder b.1 b'.1 := by
  rw [childBranches_node, List.pairwise_flatMap]
  refine ⟨fun field _ => ?_, (visitedFields_pairwise kind fields).imp ?_⟩
  · exact ((placed_pairwise field.1 field.2).filter _).imp fun h => .inr h
  · intro field field' hkeys b hb b' hb'
    obtain ⟨hb, hnode⟩ := List.mem_filter.1 hb
    obtain ⟨hb', hnode'⟩ := List.mem_filter.1 hb'
    refine .inl ?_
    rw [placed_field hb, placed_field hb']
    exact hkeys (nodesIn_isEmpty hb hnode) (nodesIn_isEmpty hb' hnode')

/-- Nodes are visited in order. -/
theorem visitsAt_pairwise (t : Tree) (spot : Spot) :
    (t.visitsAt spot).Pairwise (Precedes (t.visitsAt spot)) := by
  induction t using child_induction generalizing spot with
  | step t ih =>
      cases t with
      | node kind fields =>
          have hbelow : ∀ {b}, b ∈ (Tree.node kind fields).childBranches →
              visitsAt (spotAt (.node kind fields) spot.path b.1) b.2 ⊆
                (Tree.node kind fields).visitsAt spot := by
            intro b hb visit hvisit
            rw [visitsAt_children]
            exact List.mem_cons_of_mem _ (List.mem_flatMap.2 ⟨b, hb, hvisit⟩)
          rw [visitsAt_children, List.pairwise_cons, ← visitsAt_children, List.pairwise_flatMap]
          refine ⟨fun visit hvisit => ?_, fun b hb => ?_, ?_⟩
          · -- the node itself is around all the others
            obtain ⟨b, -, hvisit⟩ := List.mem_flatMap.1 hvisit
            obtain ⟨rest, hpath⟩ := visitsAt_below (List.mem_map_of_mem hvisit)
            refine .inl ⟨⟨b.1 :: rest, ?_⟩, ?_⟩
            · rw [← hpath, spotAt, List.append_assoc, List.singleton_append]
            · rw [← hpath, spotAt, List.append_assoc]
              simp
          · exact (ih b hb _).imp fun h => h.mono (hbelow hb)
          · refine (childBranches_pairwise kind fields).imp ?_
            intro b b' hsteps visit hvisit visit' hvisit'
            refine .inr ⟨⟨.node kind fields, spot.parent, spot.field, spot.path⟩, ?_, _, _, hsteps,
              visitsAt_below (List.mem_map_of_mem hvisit),
              visitsAt_below (List.mem_map_of_mem hvisit')⟩
            rw [visitsAt_children]
            exact List.mem_cons_self
      | _ => exact .nil

/-! ## Walks -/

/-- How a walk goes through a tree. -/
structure Walked (t : Tree) : Prop where
  /-- It visits the nodes that the recursive definition lists. -/
  walk_eq : t.walk = .ok t.visits
  /-- With a stack, every state on the way goes on to the end, and these nodes have been yielded
  then. -/
  ends : ∀ m, Steps Seen.expand ⟨[⟨t, none, none⟩], []⟩ m →
    Steps Seen.expand m ⟨[], t.visits.map Visit.seen⟩
  /-- The recursion that yields a node and then what is below its children one by one lists these,
  and nothing else. -/
  recursion : ∀ listed, Lists Seen.expand [⟨t, none, none⟩] listed ↔
    listed = t.visits.map Visit.seen
  /-- Just what can be reached is visited, -/
  reached : ∀ visit, visit ∈ t.visits ↔ Reached t visit
  /-- each node once; -/
  once : t.IsKeyed → (t.visits.map Visit.path).Nodup
  /-- parents come before their children, and siblings in the order of fields and lists. -/
  inOrder : t.visits.Pairwise (Precedes t.visits)

/-- **A walk goes through every tree in document order**, nodes of unknown kinds included. -/
theorem walked (kind : String) (fields : List (String × Tree)) : Walked (.node kind fields) := by
  have hlists := lists_visitsAt (t := .node kind fields) rfl ⟨none, none, []⟩
  exact
    { walk_eq := walk_node kind fields
      ends := fun m hm => hlists.ends hm
      recursion := fun listed => ⟨fun h => hlists.unique h, fun h => h ▸ hlists⟩
      reached := fun visit => mem_visits_iff rfl
      once := fun h => visitsAt_paths_nodup h
      inOrder := visitsAt_pairwise _ _ }

end Tree

end NameRecovery
