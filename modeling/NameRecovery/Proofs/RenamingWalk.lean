import NameRecovery.Proofs.Substitution

/-!
# Renaming on the way through a tree

A renaming need not collect the new names before it enters them.  It can walk through the tree
with a stack and give each identifier its new name when it comes to it, and whatever it reads, it
reads from the tree as it is by then.  It comes to the same end: nothing has been rewritten yet at
or below a node on the stack, and what has been rewritten above it moves no place where bindings
are named.

* `RenamingWalk.step` — the walk that rewrites names as it goes;
* `RenamingWalk.steps_visit` — what it does at a node and below, whatever lies on the stack;
* `RenamingWalk.ends` — every state on the way goes on to the substituted tree;
* `rename_substitutes` — renaming after a table, and after one table and then another.
-/

namespace NameRecovery

open NameRecovery.Tree (Place respelled)

/-! ## The walk -/

/-- The node in a place, with the parent it has there. -/
def Tree.Place.visit? (t : Tree) (place : Place) : Option Visit :=
  (t.at? place.path).map fun node =>
    ⟨node, place.parent.bind t.at?, place.field, place.path⟩

/-- A renaming on its way through a tree. -/
structure RenamingWalk where
  /-- The tree as it has been rewritten so far. -/
  tree : Tree
  /-- The nodes left to visit, the top of the stack first. -/
  stack : List Place := [.root]
  /-- The identifiers rewritten so far, with their new names. -/
  rewritten : Edits := []

namespace RenamingWalk

/-- The new name for a visited node, if it is an identifier that gets one.  An identifier without
a name stops the walk. -/
def newName? (renames : Table String) (visit : Visit) : Option (Option String) :=
  if visit.isIdentifier then (visit.newName renames).toOption else some none

/-- Take the top off the stack, rewrite its name if it is an identifier that gets a new one, and
push the children that it has by then in reverse.  Nothing is left to do when the stack is
empty. -/
def step (renames : Table String) (m : RenamingWalk) : Option RenamingWalk :=
  match m.stack with
  | [] => none
  | place :: stack => do
    let visit ← place.visit? m.tree
    let new ← newName? renames visit
    let tree := new.elim m.tree fun name => m.tree.edit [(place.path, name)]
    let node ← tree.at? place.path
    return {
      tree
      stack := DepthFirst.pushAll (node.childSteps.map (.below place.path)).reverse stack
      rewritten := m.rewritten ++ (new.map fun name => (place.path, name)).toList }

/-- Any number of steps. -/
def Steps (renames : Table String) : RenamingWalk → RenamingWalk → Prop :=
  Relation.ReflTransGen fun m m' => m.step renames = some m'

variable {table : Table String} {t u : Tree} {place : Place} {edits rewritten : Edits}
  {stack : List Place}

/-! ## One step -/

/-- The edit of the visited node, if it is an occurrence with an entry. -/
def editHere (table : Table String) (visit : Visit) : Edits :=
  respelled table visit.occurrence?.toList

/-- A node of a proper tree gets the new name of the occurrence it is, if it is one. -/
theorem newName?_eq (table : Table String) {visit : Visit} (h : visit.node.isProper = true) :
    newName? table visit = some (visit.occurrence?.bind fun o => table.find? o.2) := by
  rw [newName?]
  cases hidentifier : visit.isIdentifier with
  | false => simp [Visit.occurrence?, hidentifier]
  | true =>
      obtain ⟨fields, name, hnode, hname⟩ := Tree.name_of_proper h hidentifier
      rw [if_pos rfl, Tree.newName_eq table hnode hname]
      rfl

theorem editHere_eq (table : Table String) (visit : Visit) :
    editHere table visit = ((visit.occurrence?.bind fun o => table.find? o.2).map
      fun name => (visit.path, name)).toList := by
  rw [editHere]
  cases hoccurrence : visit.occurrence? with
  | none => rfl
  | some o =>
      have hpath := (Tree.occurrence?_path hoccurrence).1
      cases hnew : table.find? o.2 <;> simp [respelled, hnew, hpath]

/-- A node apart from all edits is met as it was, and below its parent it names a binding where it
did. -/
theorem visit?_edit (hapart : ∀ e ∈ edits, Apart place.path e.1)
    (hparent : ∀ path, place.parent = some path → path <+: place.path) {visit : Visit}
    (hvisit : place.visit? t = some visit) :
    ∃ visit', place.visit? (t.edit edits) = some visit' ∧ visit'.node = visit.node ∧
      visit'.path = visit.path ∧ visit'.occurrence? = visit.occurrence? := by
  obtain ⟨node, hat, rfl⟩ := Option.map_eq_some_iff.1 hvisit
  have hplace : isBindingPlace (place.parent.bind (t.edit edits).at?) place.field =
      isBindingPlace (place.parent.bind t.at?) place.field := by
    cases habove : place.parent with
    | none => rfl
    | some before =>
        exact Tree.isBindingPlace_edit_before hapart (hparent before habove) t place.field
  refine ⟨⟨node, place.parent.bind (t.edit edits).at?, place.field, place.path⟩, ?_, rfl, rfl, ?_⟩
  · rw [Place.visit?, Tree.at?_edit_apart hapart, hat]
    rfl
  · simp only [Visit.occurrence?, Visit.isIdentifier, Visit.isBinding, hplace]
    rfl

/-- A node that gets a new name has no children, any other keeps its children. -/
theorem childSteps_edit (table : Table String) {visit : Visit} (hproper : visit.node.isProper = true)
    (hat : t.at? visit.path = some visit.node) :
    ∃ node, (t.edit (editHere table visit)).at? visit.path = some node ∧
      node.childSteps = visit.node.childSteps := by
  rw [editHere_eq]
  cases hnew : visit.occurrence?.bind fun o => table.find? o.2 with
  | none => exact ⟨visit.node, hat, rfl⟩
  | some name =>
      obtain ⟨o, hoccurrence, -⟩ := Option.bind_eq_some_iff.1 hnew
      obtain ⟨fields, -, hnode, -⟩ :=
        Tree.name_of_proper hproper (Tree.occurrence?_path hoccurrence).2.1
      have hbefore : ∀ before step, before ++ [step] <+: visit.path →
          [(visit.path, name)].lookup before = none := by
        intro before step hway
        have hne : before ≠ visit.path := by
          rintro rfl
          have hlength := hway.length_le
          rw [List.length_append, List.length_singleton] at hlength
          omega
        rw [List.lookup_cons, beq_false_of_ne hne]
        rfl
      rw [Option.map_some, Option.toList_some]
      refine ⟨_, by rw [Tree.edit_eq_editWith, Tree.at?_editWith hbefore, hat]; rfl, ?_⟩
      rw [hnode, Tree.editWith_node, Tree.childSteps_identifier, Tree.childSteps_identifier]

/-- One step at a node apart from all edits: it may get a new name, and its children come to lie
on the stack. -/
theorem step_visit (hapart : ∀ e ∈ edits, Apart place.path e.1)
    (hparent : ∀ path, place.parent = some path → path <+: place.path) {visit : Visit}
    (hvisit : place.visit? t = some visit) (hproper : visit.node.isProper = true) :
    step table ⟨t.edit edits, place :: stack, rewritten⟩ =
      some ⟨t.edit (editHere table visit ++ edits),
        visit.node.childSteps.map (.below place.path) ++ stack,
        rewritten ++ editHere table visit⟩ := by
  obtain ⟨visit', hmet, hnode, hpath, hoccurrence⟩ := visit?_edit hapart hparent hvisit
  have hplace : visit.path = place.path := by
    obtain ⟨node, -, rfl⟩ := Option.map_eq_some_iff.1 hvisit
    rfl
  have hat : (t.edit edits).at? visit.path = some visit.node := by
    obtain ⟨node, hat, rfl⟩ := Option.map_eq_some_iff.1 hmet
    rw [hplace, hat, ← hnode]
  obtain ⟨node, hat', hsteps⟩ := childSteps_edit table hproper hat
  have htree : (visit.occurrence?.bind fun o => table.find? o.2).elim (t.edit edits)
      (fun name => (t.edit edits).edit [(place.path, name)]) =
        (t.edit edits).edit (editHere table visit) := by
    rw [editHere_eq, hplace]
    cases visit.occurrence?.bind fun o => table.find? o.2 <;> rfl
  rw [hplace] at hat'
  have hproper' : visit'.node.isProper = true := hnode ▸ hproper
  have hnew := newName?_eq table hproper'
  rw [hoccurrence] at hnew
  simp only [step, hmet, hnew, Option.bind_eq_bind, Option.bind_some, htree, hat',
    Option.pure_def, DepthFirst.pushAll_reverse, hsteps]
  rw [Tree.edit_edit, editHere_eq, hplace]

/-! ## All that is below a node -/

/-- The edits of a node and of all that is below it, in document order. -/
def editsAt (table : Table String) (visit : Visit) : Edits :=
  (visit.node.visitsAt ⟨visit.parent, visit.field, visit.path⟩).flatMap (editHere table)

/-- The child that a branch of a visited node leads to. -/
def childVisit (visit : Visit) (b : Step × Tree) : Visit :=
  ⟨b.2, some visit.node, some b.1.field, visit.path ++ [b.1]⟩

/-- They are its own and those of its children. -/
theorem editsAt_eq (table : Table String) {visit : Visit} (hnode : visit.node.isNode = true) :
    editsAt table visit = editHere table visit ++
      visit.node.childBranches.flatMap fun b => editsAt table (childVisit visit b) := by
  obtain ⟨node, parent, field, path⟩ := visit
  cases node with
  | node kind fields =>
      rw [editsAt, Tree.visitsAt_children, List.flatMap_cons, List.flatMap_assoc]
      rfl
  | _ => cases hnode

/-- They lie below it. -/
theorem editsAt_below (table : Table String) (visit : Visit) :
    ∀ e ∈ editsAt table visit, visit.path <+: e.1 := by
  intro e he
  obtain ⟨met, hmet, he⟩ := List.mem_flatMap.1 he
  rw [editHere_eq, Option.mem_toList, Option.map_eq_some_iff] at he
  obtain ⟨name, -, rfl⟩ := he
  exact Tree.visitsAt_below (List.mem_map_of_mem hmet)

/-- The child of a node in a tree stands in the place below it. -/
theorem visit?_below {visit : Visit} (hat : t.at? visit.path = some visit.node)
    (hproper : visit.node.isProper = true) {b : Step × Tree}
    (hb : b ∈ visit.node.childBranches) :
    (Place.below visit.path b.1).visit? t = some (childVisit visit b) := by
  have hbranch : visit.node.branch? b.1 = some b.2 := by
    cases hnode : visit.node with
    | node kind fields =>
        rw [hnode] at hproper hb
        exact Tree.lookup_of_mem (Tree.placedIn_steps_nodup (Tree.isProper_node.1 hproper).1)
          (Tree.mem_childBranches hb).1
    | _ => rw [hnode] at hb; exact absurd hb List.not_mem_nil
  have hchild : t.at? (visit.path ++ [b.1]) = some b.2 := by
    rw [Tree.at?_append, hat, Option.bind_some, Tree.at?_cons hbranch]
    rfl
  have hmet : (Place.below visit.path b.1).visit? t =
      (t.at? (visit.path ++ [b.1])).map fun node =>
        ⟨node, t.at? visit.path, some b.1.field, visit.path ++ [b.1]⟩ := rfl
  rw [hmet, hchild, hat]
  rfl

/-- What is done at several children one after the other, if it is known what is done at each. -/
theorem steps_children {path : Path} {bs : List (Step × Tree)} (part : Step × Tree → Edits)
    (hsteps : (bs.map Prod.fst).Nodup) (hbelow : ∀ b ∈ bs, ∀ e ∈ part b, path ++ [b.1] <+: e.1)
    (hpart : ∀ b ∈ bs, ∀ edits stack rewritten, (∀ e ∈ edits, Apart (path ++ [b.1]) e.1) →
      Steps table ⟨t.edit edits, .below path b.1 :: stack, rewritten⟩
        ⟨t.edit ((part b).reverse ++ edits), stack, rewritten ++ part b⟩)
    (hapart : ∀ b ∈ bs, ∀ e ∈ edits, Apart (path ++ [b.1]) e.1) :
    Steps table ⟨t.edit edits, (bs.map Prod.fst).map (.below path) ++ stack, rewritten⟩
      ⟨t.edit ((bs.flatMap part).reverse ++ edits), stack, rewritten ++ bs.flatMap part⟩ := by
  induction bs generalizing edits rewritten with
  | nil => rw [List.flatMap_nil, List.append_nil]; exact .refl
  | cons b rest ih =>
      obtain ⟨hb, hrest⟩ := List.nodup_cons.1 hsteps
      have hfirst := hpart b List.mem_cons_self edits
        ((rest.map Prod.fst).map (.below path) ++ stack) rewritten (hapart b List.mem_cons_self)
      -- the children behind lie apart from what was done at this one
      have hbehind : ∀ c ∈ rest, ∀ e ∈ (part b).reverse ++ edits, Apart (path ++ [c.1]) e.1 := by
        intro c hc e he
        rcases List.mem_append.1 he with hnew | hold
        · have hne : c.1 ≠ b.1 := by
            intro heq
            exact hb (heq ▸ List.mem_map_of_mem hc)
          exact .of_steps hne (hbelow b List.mem_cons_self e (List.mem_reverse.1 hnew))
        · exact hapart c (List.mem_cons_of_mem _ hc) e hold
      rw [List.flatMap_cons, List.reverse_append, List.append_assoc, ← List.append_assoc rewritten]
      exact hfirst.trans (ih hrest (fun c hc => hbelow c (List.mem_cons_of_mem _ hc))
        (fun c hc => hpart c (List.mem_cons_of_mem _ hc)) hbehind)

/-- A node with children is no identifier, and gets no new name. -/
theorem editHere_of_child {visit : Visit} (hproper : visit.node.isProper = true) {b : Step × Tree}
    (hb : b ∈ visit.node.childBranches) : editHere table visit = [] := by
  rw [editHere]
  cases hoccurrence : visit.occurrence? with
  | none => rfl
  | some o =>
      obtain ⟨fields, -, hnode, -⟩ :=
        Tree.name_of_proper hproper (Tree.occurrence?_path hoccurrence).2.1
      have hnone := Tree.childSteps_identifier fields
      rw [hnode] at hb
      rw [Tree.childSteps, List.map_eq_nil_iff] at hnone
      rw [hnone] at hb
      exact absurd hb List.not_mem_nil

theorem editHere_reverse (table : Table String) (visit : Visit) :
    (editHere table visit).reverse = editHere table visit := by
  rw [editHere_eq]
  cases (visit.occurrence?.bind fun o => table.find? o.2) <;> rfl

/-- **The walk below a node** that lies apart from all edits: what occurs there gets its new name,
once, and nothing else on the stack is touched. -/
theorem steps_visit {visit : Visit} (hvisit : place.visit? t = some visit)
    (hparent : ∀ path, place.parent = some path → path <+: place.path)
    (hproper : visit.node.isProper = true) (hnode : visit.node.isNode = true)
    (hapart : ∀ e ∈ edits, Apart place.path e.1) :
    Steps table ⟨t.edit edits, place :: stack, rewritten⟩
      ⟨t.edit ((editsAt table visit).reverse ++ edits), stack,
        rewritten ++ editsAt table visit⟩ := by
  obtain ⟨u, parent, field, path⟩ := visit
  induction u using Tree.child_induction generalizing place parent field path edits rewritten
    stack with
  | step u ih =>
      have hat : t.at? path = some u ∧ path = place.path := by
        obtain ⟨node, hat, hsame⟩ := Option.map_eq_some_iff.1 hvisit
        cases hsame
        exact ⟨hat, rfl⟩
      obtain ⟨hat, rfl⟩ := hat
      refine .head (step_visit hapart hparent hvisit hproper) ?_
      rw [editsAt_eq table hnode, List.reverse_append, editHere_reverse, List.append_assoc,
        ← List.append_assoc rewritten]
      refine steps_children _ (Tree.childSteps_nodup hproper)
        (fun b _ => editsAt_below table (childVisit _ b)) ?_ ?_
      · intro b hb edits stack rewritten hapart
        have hbelow := visit?_below hat hproper hb
        have hmem := Tree.mem_childBranches hb
        refine ih b hb ?_ hapart _ _ _ hbelow ?_ hmem.2
        · rintro before hbefore
          cases hbefore
          exact List.prefix_append _ _
        · cases u with
          | node kind fields => exact (Tree.isProper_node.1 hproper).2.2 b hmem.1
          | _ => cases hnode
      · intro b hb e he
        rw [editHere_of_child hproper hb, List.nil_append] at he
        exact (hapart e he).append _

/-! ## The whole walk -/

/-- The edits of a tree are the new names of its occurrences. -/
theorem editsAt_root (table : Table String) (t : Tree) :
    editsAt table ⟨t, none, none, []⟩ = respelled table t.occurrences := by
  have hvisits : ∀ visits : List Visit, visits.flatMap (editHere table) =
      respelled table (visits.filterMap Visit.occurrence?) := by
    intro visits
    induction visits with
    | nil => rfl
    | cons visit rest ih =>
        rw [List.flatMap_cons, ih, List.filterMap_cons, editHere]
        cases visit.occurrence? with
        | none => rfl
        | some o => rw [respelled, respelled, respelled, ← List.filterMap_append]; rfl
  exact hvisits t.visits

/-- Where every path is edited once, the order of the edits is of no account. -/
theorem edit_reverse (h : (edits.map Prod.fst).Nodup) (t : Tree) :
    t.edit edits.reverse = t.edit edits := by
  have hlookup : ∀ path, edits.reverse.lookup path = edits.lookup path := by
    intro path
    cases hfind : edits.lookup path with
    | none =>
        rw [List.lookup_eq_none_iff] at hfind ⊢
        exact fun e he => hfind e (List.mem_reverse.1 he)
    | some name =>
        have hmem : (path, name) ∈ edits.reverse := by
          obtain ⟨before, behind, heq, -⟩ := List.lookup_eq_some_iff.1 hfind
          simp [heq]
        have hnodup : (edits.reverse.map Prod.fst).Nodup := by
          rw [List.map_reverse]
          exact List.nodup_reverse.2 h
        exact Tree.lookup_of_mem hnodup hmem
  rw [Tree.edit_eq_editWith, Tree.edit_eq_editWith, funext hlookup]

/-- No occurrence of a proper tree gets a new name twice. -/
theorem respelled_nodup (h : t.isProper = true) (table : Table String) :
    ((respelled table t.occurrences).map Prod.fst).Nodup := by
  have hpaths := (Tree.proper_paths_nodup h).sublist
    (Tree.occurrencesAt_paths_sublist ⟨none, none, []⟩ t)
  refine hpaths.sublist ?_
  change ((respelled table t.occurrences).map Prod.fst).Sublist (t.occurrences.map Prod.fst)
  induction t.occurrences with
  | nil => exact .slnil
  | cons o rest ih =>
      rw [respelled, List.filterMap_cons]
      cases table.find? o.2 with
      | none => exact ih.cons _
      | some new => exact ih.cons_cons _

/-- The walk through a proper tree comes to the end of all substitutions at once. -/
theorem steps_root (h : t.isProper = true) (hnode : t.isNode = true) (table : Table String) :
    Steps table ⟨t, [.root], []⟩
      ⟨t.substitute table.spell, [], respelled table t.occurrences⟩ := by
  have hroot : Place.root.visit? t = some ⟨t, none, none, []⟩ := rfl
  have hsteps : Steps table ⟨t.edit [], [.root], []⟩
      ⟨t.edit ((editsAt table ⟨t, none, none, []⟩).reverse ++ []), [],
        [] ++ editsAt table ⟨t, none, none, []⟩⟩ :=
    steps_visit hroot (fun path hpath => by cases hpath) h hnode
      fun e he => absurd he List.not_mem_nil
  rw [editsAt_root, List.append_nil, List.nil_append, edit_reverse (respelled_nodup h table),
    Tree.edit_eq_substitute h] at hsteps
  exact hsteps

/-- An empty stack is the end: every state on the way goes on to it. -/
theorem ends (h : t.isProper = true) (hnode : t.isNode = true) {m : RenamingWalk}
    (hm : Steps table ⟨t, [.root], []⟩ m) :
    Steps table m ⟨t.substitute table.spell, [], respelled table t.occurrences⟩ := by
  have hunique : Relator.RightUnique fun m m' : RenamingWalk => m.step table = some m' :=
    fun _ _ _ h h' => Option.some.inj (h.symm.trans h')
  refine reaches_last hunique (fun next hnext => ?_) (steps_root h hnode table) hm
  cases hnext

end RenamingWalk

/-! ## One table and then another -/

/-- The table that renames as a first one and then a second one do. -/
def Table.followedBy (first second : Table String) : Table String :=
  first.map (fun entry => (entry.1, second.spell entry.2)) ++ second

theorem Table.spell_followedBy (first second : Table String) (name : String) :
    (first.followedBy second).spell name = second.spell (first.spell name) := by
  have hfirst := Tree.lookup_map_value (fun _ new => second.spell new) name first
  simp only [spell, find?, followedBy, List.lookup_append]
  simp only [spell, find?] at hfirst
  rw [hfirst]
  cases first.lookup name with
  | none => rfl
  | some new => rfl

/-- What renaming a tree after a table does, and then after a second one. -/
structure Substitutes (t : Tree) (first second : Table String) : Prop where
  /-- Every occurrence with an entry gets the new name, all else stays, and the number of
  these occurrences is told. -/
  once : t.rename first =
    (t.substitute first.spell, .ok (t.occurrences.countP fun o => first.has o.2 : Nat))
  /-- The walk that rewrites names as it goes comes to the same tree, from every state on its way:
  by then each of these occurrences has been rewritten, in document order, -/
  walk : ∀ m, RenamingWalk.Steps first ⟨t, [.root], []⟩ m →
    RenamingWalk.Steps first m ⟨(t.rename first).1, [], respelled first t.occurrences⟩
  /-- none of them twice, and their number is the one that is told. -/
  walk_once : ((respelled first t.occurrences).map Prod.fst).Nodup ∧
    (t.rename first).2 = .ok (respelled first t.occurrences).length
  /-- The occurrences keep their paths, and their names are replaced once. -/
  occurrences_eq : (t.rename first).1.occurrences =
    t.occurrences.map fun o => (o.1, first.spell o.2)
  /-- Renaming after both tables is renaming after one. -/
  twice : ((t.rename first).1.rename second).1 = (t.rename (first.followedBy second)).1
  /-- Its new names are those of the second table for those of the first one. -/
  spell_eq : ∀ name, (first.followedBy second).spell name = second.spell (first.spell name)

/-- **Renaming is one simultaneous substitution**, whatever the tables and the proper
tree: names are looked up once, though the tree changes under the walk that does so, and two
renamings in a row are one. -/
theorem rename_substitutes {t : Tree} (h : t.isProper = true) (hnode : t.isNode = true)
    (first second : Table String) : Substitutes t first second := by
  have honce := Tree.rename_eq_substitute h hnode first
  have hsubstituted : (t.substitute first.spell).isNode = true := by
    cases t with
    | node kind fields =>
        obtain ⟨fields', heq⟩ := @Tree.exists_fields_substituteAt first.spell true kind fields
        rw [Tree.substitute, heq]
        rfl
    | _ => cases hnode
  refine ⟨honce, fun m hm => ?_, ⟨RenamingWalk.respelled_nodup h first, ?_⟩, ?_, ?_,
    Table.spell_followedBy first second⟩
  · rw [honce]
    exact RenamingWalk.ends h hnode hm
  · rw [honce, Tree.length_respelled]
  · rw [honce]
    exact Tree.occurrences_substitute h
  · have hproper : (t.substitute first.spell).isProper = true := Tree.isProper_substituteAt h true
    rw [honce, Tree.rename_eq_substitute hproper hsubstituted, Tree.rename_eq_substitute h hnode]
    dsimp only
    rw [Tree.substitute_substitute]
    have hspell : (fun name => second.spell (first.spell name)) =
        (first.followedBy second).spell :=
      funext fun name => (Table.spell_followedBy first second name).symm
    rw [hspell]

/-- A node of an unknown kind with two names, and a key spelled like one of them. -/
def unknownNode : Tree :=
  .node "Unknown" [("left", .node "Identifier" [("name", .text "a")]),
    ("right", .node "Property" [("key", .node "Identifier" [("name", .text "a")]),
      ("value", .node "Identifier" [("name", .text "b")])])]

/-- Two names change places, and then one of them changes again. -/
theorem rename_substitutes_swapped : unknownNode.isProper = true ∧ unknownNode.isNode = true ∧
    Substitutes unknownNode [("a", "b"), ("b", "a")] [("b", "c")] := by
  have hproper : unknownNode.isProper = true := by decide +kernel
  exact ⟨hproper, rfl, rename_substitutes hproper rfl _ _⟩

end NameRecovery
