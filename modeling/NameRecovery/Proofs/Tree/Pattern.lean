import NameRecovery.Proofs.Tree.Formed
import NameRecovery.Proofs.Tree.Preorder
import NameRecovery.Proofs.Tree.Rename

/-!
# The names a pattern binds, read in three ways

The names a pattern binds can be read by recursion, with a stack of the patterns left, or off the
identifiers that a walk through the pattern meets.  The walk enters more than the others do: the
keys of properties and the defaults, which lie aside.

* `Tree.expandPattern` — what is read at a pattern, and what is pushed;
* `Tree.IsPattern` — names, object and array patterns, with holes, defaults and rest elements;
* `Tree.bindingSide` — the visited nodes that lie in no key and in no default;
* `Tree.agreed_node` — the three ways agree on a node if they agree on what is right inside it;
* `Tree.agreedOn` — so they agree on all formed nodes;
* `Tree.exists_binds` — the names that such a node binds.
-/

namespace NameRecovery

namespace Tree

open DepthFirst

/-! ## With a stack -/

/-- What a part of an object pattern binds by: the value of a property, and anything else
itself. -/
def target (part : Tree) : Tree :=
  if part.isKind "Property" then part.get "value" else part

/-- The patterns that the parts of an object pattern bind by, looked up from the last to the
first; what is no node binds nothing. -/
def targets : List Tree → Except Fault (List Tree)
  | [] => .ok []
  | part :: rest => do
    let patterns ← targets rest
    let _ ← part.withFields
    if part.isKind "Property" then return (← part.need "value") :: patterns
    else if part.isNode then return part :: patterns
    else return patterns

/-- The patterns right inside a pattern, in order. -/
def innerPatterns (t : Tree) : Except Fault (List Tree) :=
  match t.kind? with
  | some "ObjectPattern" => do targets (← (t.get "properties").items)
  | some "ArrayPattern" => do return (← (t.get "elements").items).filter isNode
  | some "AssignmentPattern" => do return [← t.need "left"]
  | some "RestElement" => do return [← t.need "argument"]
  | _ => .ok []

/-- An identifier yields its name; any other pattern yields nothing itself, and the patterns right
inside it are pushed. -/
def expandPattern : Expansion Tree String := fun t => do
  let _ ← t.withFields
  if t.isKind "Identifier" then return ([← t.needText "name"], [])
  else return ([], ← t.innerPatterns)

/-! ## Patterns -/

/-- A pattern, through and through. -/
inductive IsPattern : Tree → Prop where
  /-- A name. -/
  | name (name : String) : IsPattern (.node "Identifier" [("name", .text name)])
  /-- An object pattern, each part of which binds by a pattern. -/
  | object {parts : List Tree} (hparts : ∀ part ∈ parts, IsPattern part.target) :
      IsPattern (.node "ObjectPattern" [("properties", .list parts)])
  /-- An array pattern, with holes. -/
  | array {elements : List Tree}
      (helements : ∀ element ∈ elements, element.isNull = false → IsPattern element) :
      IsPattern (.node "ArrayPattern" [("elements", .list elements)])
  /-- A pattern with a default. -/
  | withDefault {left right : Tree} (hleft : IsPattern left) :
      IsPattern (.node "AssignmentPattern" [("left", left), ("right", right)])
  /-- A rest element. -/
  | rest {argument : Tree} (hargument : IsPattern argument) :
      IsPattern (.node "RestElement" [("argument", argument)])

theorem IsPattern.parts {parts : List Tree}
    (h : IsPattern (.node "ObjectPattern" [("properties", .list parts)])) :
    ∀ part ∈ parts, IsPattern part.target := by
  generalize ht : Tree.node "ObjectPattern" [("properties", .list parts)] = t at h
  cases h with
  | object hparts => simp_all
  | _ => simp at ht

theorem IsPattern.elements {elements : List Tree}
    (h : IsPattern (.node "ArrayPattern" [("elements", .list elements)])) :
    ∀ element ∈ elements, element.isNull = false → IsPattern element := by
  generalize ht : Tree.node "ArrayPattern" [("elements", .list elements)] = t at h
  cases h with
  | array helements => simp_all
  | _ => simp at ht

theorem IsPattern.left {left right : Tree}
    (h : IsPattern (.node "AssignmentPattern" [("left", left), ("right", right)])) :
    IsPattern left := by
  generalize ht : Tree.node "AssignmentPattern" [("left", left), ("right", right)] = t at h
  cases h with
  | withDefault hleft => simp_all
  | _ => simp at ht

theorem IsPattern.argument {argument : Tree}
    (h : IsPattern (.node "RestElement" [("argument", argument)])) : IsPattern argument := by
  generalize ht : Tree.node "RestElement" [("argument", argument)] = t at h
  cases h with
  | rest hargument => simp_all
  | _ => simp at ht

/-- The kinds of patterns. -/
def patternKinds : List String :=
  ["Identifier", "ObjectPattern", "ArrayPattern", "AssignmentPattern", "RestElement"]

theorem IsPattern.isAny {t : Tree} (h : t.IsPattern) : t.isAny patternKinds = true := by
  cases h <;> rfl

/-! ## Aside of what is bound -/

/-- Is this the place of the key of a property, or of a default? -/
def isAside (parent : Option Tree) (field : Option String) : Bool :=
  match parent.bind kind? with
  | some "Property" => field == some "key"
  | some "AssignmentPattern" => field == some "right"
  | _ => false

/-- Among these visits, does the visited node lie in the key of a property, or in a default? -/
def liesAside (visits : List Visit) (visit : Visit) : Bool :=
  visits.any fun around => isAside around.parent around.field && around.path.isPrefixOf visit.path

/-- The visits of the nodes that do not. -/
def bindingSide (visits : List Visit) : List Visit :=
  visits.filter fun visit => !liesAside visits visit

theorem liesAside_iff {visits : List Visit} {visit : Visit} : liesAside visits visit = true ↔
    ∃ around ∈ visits, isAside around.parent around.field = true ∧ around.path <+: visit.path := by
  simp [liesAside, List.isPrefixOf_iff_prefix]

/-- All that is met at such a place lies aside. -/
theorem bindingSide_aside (t : Tree) {spot : Spot}
    (h : isAside spot.parent spot.field = true) : bindingSide (t.visitsAt spot) = [] := by
  refine List.filter_eq_nil_iff.2 fun visit hvisit => ?_
  have hroot : ⟨t, spot.parent, spot.field, spot.path⟩ ∈ t.visitsAt spot := by
    cases t with
    | node kind fields => rw [visitsAt_eq]; exact List.mem_cons_self
    | _ => exact absurd hvisit List.not_mem_nil
  have haside := liesAside_iff.2 ⟨_, hroot, h, visitsAt_below (List.mem_map_of_mem hvisit)⟩
  simp [haside]

section Node

variable {kind : String} {fields : List (String × Tree)} {spot : Spot}

/-- Whether a node lies aside in a branch is told by that branch. -/
theorem liesAside_branch (h : isLaidOut kind fields = true)
    (hspot : isAside spot.parent spot.field = false) {b : Step × Tree} (hb : b ∈ placedIn fields)
    {visit : Visit} (hvisit : visit ∈ visitsAt (spotAt (.node kind fields) spot.path b.1) b.2) :
    liesAside ((Tree.node kind fields).visitsAt spot) visit =
      liesAside (visitsAt (spotAt (.node kind fields) spot.path b.1) b.2) visit := by
  rw [Bool.eq_iff_iff, liesAside_iff, liesAside_iff, visitsAt_node h]
  constructor
  · rintro ⟨around, haround, haside, hprefix⟩
    rcases List.mem_cons.1 haround with rfl | haround
    · exact absurd haside (by simp [hspot])
    · -- the path of the node leads through both branches, so they are the same
      obtain ⟨b', hb', haround⟩ := List.mem_flatMap.1 haround
      have hbelow' := (visitsAt_below (List.mem_map_of_mem haround)).trans hprefix
      have hbelow := visitsAt_below (List.mem_map_of_mem hvisit)
      have hstep : b'.1 = b.1 := step_unique hbelow' hbelow
      obtain rfl := List.inj_on_of_nodup_map (steps_nodup h) hb' hb hstep
      exact ⟨around, haround, haside, hprefix⟩
  · rintro ⟨around, haround, h⟩
    exact ⟨around, List.mem_cons_of_mem _ (List.mem_flatMap.2 ⟨b, hb, haround⟩), h⟩

/-- A node does not lie aside for what is below it. -/
theorem liesAside_root (h : isLaidOut kind fields = true)
    (hspot : isAside spot.parent spot.field = false) :
    liesAside ((Tree.node kind fields).visitsAt spot)
      ⟨.node kind fields, spot.parent, spot.field, spot.path⟩ = false := by
  rw [Bool.eq_false_iff, ne_eq, liesAside_iff, visitsAt_node h]
  rintro ⟨around, haround, haside, hprefix⟩
  rcases List.mem_cons.1 haround with rfl | haround
  · exact absurd haside (by simp [hspot])
  · obtain ⟨b, -, haround⟩ := List.mem_flatMap.1 haround
    have hlength := ((visitsAt_below (List.mem_map_of_mem haround)).trans hprefix).length_le
    simp only [spotAt, List.length_append, List.length_singleton] at hlength
    omega

/-- What does not lie aside in the fields of a node. -/
def bindingSideIn (parent : Tree) (path : Path) (fields : List (String × Tree)) : List Visit :=
  (placedIn fields).flatMap fun b => bindingSide (visitsAt (spotAt parent path b.1) b.2)

/-- What does not lie aside in a node is the node itself and what does not in its fields. -/
theorem bindingSide_node (h : isLaidOut kind fields = true)
    (hspot : isAside spot.parent spot.field = false) :
    bindingSide ((Tree.node kind fields).visitsAt spot) =
      ⟨.node kind fields, spot.parent, spot.field, spot.path⟩ ::
        bindingSideIn (.node kind fields) spot.path fields := by
  have hbranch : ∀ b ∈ placedIn fields,
      (visitsAt (spotAt (.node kind fields) spot.path b.1) b.2).filter
          (fun visit => !liesAside ((Tree.node kind fields).visitsAt spot) visit) =
        bindingSide (visitsAt (spotAt (.node kind fields) spot.path b.1) b.2) := by
    intro b hb
    exact List.filter_congr fun visit hvisit => by rw [liesAside_branch h hspot hb hvisit]
  have hroot := liesAside_root h hspot
  rw [bindingSide]
  conv => lhs; arg 2; rw [visitsAt_node h]
  rw [List.filter_cons, hroot, Bool.not_false, if_pos rfl, List.filter_flatMap]
  exact congrArg _ (List.flatMap_congr hbranch)

end Node

section Fields

variable {parent : Tree} {path : Path} {key : String} {rest : List (String × Tree)}

theorem bindingSideIn_nil : bindingSideIn parent path [] = [] := rfl

/-- A node in a field comes first. -/
theorem bindingSideIn_cons {t : Tree} (hnode : t.isNode = true) :
    bindingSideIn parent path ((key, t) :: rest) =
      bindingSide (t.visitsAt (spotAt parent path ⟨key, 0⟩)) ++ bindingSideIn parent path rest := by
  have hne : ∀ items, t ≠ .list items := by
    rintro items rfl
    cases hnode
  rw [bindingSideIn, placedIn, List.flatMap_cons, placed_of_ne_list hne]
  rfl

/-- Plain data in a field has no nodes. -/
theorem bindingSideIn_data {t : Tree} (hdata : t.isData = true) :
    bindingSideIn parent path ((key, t) :: rest) = bindingSideIn parent path rest := by
  obtain ⟨hplaced, hnode⟩ := placed_data key hdata
  rw [bindingSideIn, placedIn, List.flatMap_cons, hplaced, List.singleton_append,
    List.flatMap_cons, visitsAt_of_not_node hnode]
  rfl

/-- A node that stands aside has nothing on the binding side. -/
theorem bindingSideIn_aside {t : Tree} (hnode : t.isNode = true)
    (haside : isAside (some parent) (some key) = true) :
    bindingSideIn parent path ((key, t) :: rest) = bindingSideIn parent path rest := by
  rw [bindingSideIn_cons hnode, bindingSide_aside t haside, List.nil_append]

end Fields

/-! ## Three readings -/

/-- These names are what the recursion reads, what the stack yields for the places, and, if these
are patterns, the names of the identifiers among the visits. -/
structure Agree (read : Except Fault (List String)) (places : List Tree) (visits : List Visit)
    (names : List String) : Prop where
  /-- The recursion reads the names. -/
  read_eq : read = .ok names
  /-- They are listed for the places. -/
  lists : Lists expandPattern places names
  /-- They are met. -/
  met : (∀ place ∈ places, IsPattern place) → namesOfIdentifiers visits = .ok names

theorem Agree.nil : Agree (.ok []) [] [] [] :=
  ⟨rfl, .nil, fun _ => rfl⟩

theorem namesOfIdentifiers_append {visits visits' : List Visit} {names names' : List String}
    (h : namesOfIdentifiers visits = .ok names) (h' : namesOfIdentifiers visits' = .ok names') :
    namesOfIdentifiers (visits ++ visits') = .ok (names ++ names') := by
  induction visits generalizing names with
  | nil =>
      obtain rfl : [] = names := Except.ok.inj h
      exact h'
  | cons visit rest ih =>
      rw [namesOfIdentifiers] at h
      rw [List.cons_append, namesOfIdentifiers]
      cases hidentifier : visit.isIdentifier with
      | false =>
          rw [hidentifier] at h
          exact ih h
      | true =>
          rw [hidentifier] at h
          cases hname : visit.node.needText "name" with
          | error fault => rw [hname] at h; cases h
          | ok name =>
              cases hrest : namesOfIdentifiers rest with
              | error fault => rw [hname, hrest] at h; cases h
              | ok found =>
                  rw [hname, hrest] at h
                  obtain rfl : name :: found = names := Except.ok.inj h
                  rw [ih hrest]
                  rfl

theorem Agree.append {read read' : Except Fault (List String)} {places places' : List Tree}
    {visits visits' : List Visit} {names names' : List String}
    (h : Agree read places visits names) (h' : Agree read' places' visits' names') :
    Agree (do return (← read) ++ (← read')) (places ++ places') (visits ++ visits')
      (names ++ names') where
  read_eq := by rw [h.read_eq, h'.read_eq]; rfl
  lists := h.lists.append h'.lists
  met hpatterns :=
    have hboth := List.forall_mem_append.1 hpatterns
    namesOfIdentifiers_append (h.met hboth.1) (h'.met hboth.2)

/-- Do the three ways agree on a value that binds by these patterns, wherever it stands but
aside? -/
def Agreed (read : Except Fault (List String)) (places : List Tree) (t : Tree) : Prop :=
  ∀ spot : Spot, isAside spot.parent spot.field = false →
    ∃ names, Agree read places (bindingSide (t.visitsAt spot)) names

/-- Reading the items of a list one after the other agrees when reading each of them does. -/
theorem agree_items {readAll : List Tree → Except Fault (List String)}
    {read : Tree → Except Fault (List String)} (hnil : readAll [] = .ok [])
    (hcons : ∀ item rest, readAll (item :: rest) = do return (← read item) ++ (← readAll rest))
    {places : Tree → List Tree} {items : List Tree}
    (h : ∀ item ∈ items, Agreed (read item) (places item) item)
    {parent : Tree} {key : String} (hplace : isAside (some parent) (some key) = false)
    (path : Path) :
    ∃ names, Agree (readAll items) (items.flatMap places)
      (bindingSideIn parent path [(key, .list items)]) names := by
  have hfrom : ∀ start, ∃ names, Agree (readAll items) (items.flatMap places)
      ((items.zipIdx start).flatMap fun item =>
        bindingSide (visitsAt (spotAt parent path ⟨key, item.2⟩) item.1)) names := by
    induction items with
    | nil => exact fun _ => ⟨[], hnil ▸ .nil⟩
    | cons item rest ih =>
        intro start
        obtain ⟨first, hfirst⟩ :=
          h item List.mem_cons_self (spotAt parent path ⟨key, start⟩) hplace
        obtain ⟨others, hothers⟩ :=
          ih (fun item hitem => h item (List.mem_cons_of_mem _ hitem)) (start + 1)
        refine ⟨first ++ others, ?_⟩
        rw [hcons]
        exact hfirst.append hothers
  obtain ⟨names, hnames⟩ := hfrom 0
  have hplaced : placedIn [(key, .list items)] =
      items.zipIdx.map fun item => (⟨key, item.2⟩, item.1) := List.append_nil _
  refine ⟨names, ?_⟩
  rwa [bindingSideIn, hplaced, List.flatMap_map]

/-- The three ways agree on a node, taken as a pattern and as a part of an object pattern. -/
structure AgreedOn (t : Tree) : Prop where
  /-- They agree on a pattern, -/
  pattern : t.isFormed = true → t.isNode = true → Agreed t.boundBy [t] t
  /-- and on a part. -/
  part : t.isFormed = true → t.isNode = true → Agreed (boundByProperty t) [t.target] t

section Patterns

variable {kind : String} {fields : List (String × Tree)}

theorem expandPattern_node (hkind : kind ≠ "Identifier") {inner : List Tree}
    (hinner : (Tree.node kind fields).innerPatterns = .ok inner) :
    expandPattern (.node kind fields) = .ok ([], inner) := by
  simp [expandPattern, withFields, isKind, kind?, hkind, hinner, bind, Except.bind, pure,
    Except.pure]

theorem not_isIdentifier (hkind : kind ≠ "Identifier") (parent : Option Tree)
    (field : Option String) (path : Path) :
    Visit.isIdentifier ⟨.node kind fields, parent, field, path⟩ = false := by
  simp [Visit.isIdentifier, isKind, kind?, hkind]

/-- What agrees right inside a node agrees on the node, if it is no name itself. -/
theorem agreed_node {inner : List Tree} (hlaid : isLaidOut kind fields = true)
    (hkind : kind ≠ "Identifier") (hinner : (Tree.node kind fields).innerPatterns = .ok inner)
    (hpattern : (Tree.node kind fields).IsPattern → ∀ place ∈ inner, IsPattern place)
    (h : ∀ path, ∃ names, Agree (boundBy (.node kind fields)) inner
      (bindingSideIn (.node kind fields) path fields) names) :
    Agreed (boundBy (.node kind fields)) [.node kind fields] (.node kind fields) := by
  intro spot hspot
  obtain ⟨names, hnames⟩ := h spot.path
  refine ⟨names, hnames.read_eq, ?_, fun hroot => ?_⟩
  · exact .single (expandPattern_node hkind hinner) hnames.lists
  · rw [bindingSide_node hlaid hspot, namesOfIdentifiers, not_isIdentifier hkind]
    exact hnames.met (hpattern (List.forall_mem_singleton.1 hroot))

theorem agreed_identifier (h : (Tree.node "Identifier" fields).isFormed = true) :
    Agreed (boundBy (.node "Identifier" fields)) [.node "Identifier" fields]
      (.node "Identifier" fields) := by
  intro spot hspot
  have hlaid := (isFormed_node.1 h).1
  obtain ⟨name, rfl⟩ := fields_of_identifier hlaid
  have hlists : Lists expandPattern [.node "Identifier" [("name", .text name)]] ([name] ++ []) :=
    .single rfl .nil
  refine ⟨[name], rfl, hlists, fun _ => ?_⟩
  rw [bindingSide_node hlaid hspot]
  rfl

theorem targets_ok {parts : List Tree} (h : ∀ part ∈ parts, IsA propertyKinds part) :
    targets parts = .ok (parts.map target) := by
  induction parts with
  | nil => rfl
  | cons part rest ih =>
      have hpart := h part List.mem_cons_self
      have hrest := ih fun part hpart => h part (List.mem_cons_of_mem _ hpart)
      obtain ⟨kind, fields, rfl, -⟩ := isAny_iff.1 hpart.1
      by_cases hkind : kind = "Property"
      · subst hkind
        obtain ⟨value, hvalue, -⟩ := lookup_of_isFormed hpart.2 "value" (.one expressionKinds) rfl
        simp [targets, hrest, withFields, target, isKind, kind?, need, get, get?, hvalue, bind,
          Except.bind, pure, Except.pure]
      · simp [targets, hrest, withFields, target, isKind, isNode, kind?, hkind, bind,
          Except.bind, pure, Except.pure]

theorem boundBy_objectPattern {parts : List Tree} (h : ∀ part ∈ parts, IsA propertyKinds part) :
    boundBy (.node "ObjectPattern" [("properties", .list parts)]) = boundByProperties parts := by
  have hcheck : checkProperties parts = .ok () := by
    refine checkProperties_ok fun part hpart => ?_
    obtain ⟨kind, fields, rfl, -⟩ := isAny_iff.1 (h part hpart).1
    refine ⟨kind, fields, rfl, ?_⟩
    rintro rfl
    obtain ⟨value, hvalue, -⟩ :=
      lookup_of_isFormed (h _ hpart).2 "value" (.one expressionKinds) rfl
    exact ⟨value, hvalue⟩
  have hget : (Tree.node "ObjectPattern" [("properties", .list parts)]).get "properties" =
      .list parts := rfl
  rw [boundBy, hget, items_list, boundInProperties_eq rfl]
  simp only [bind, Except.bind, hcheck]

theorem agreed_objectPattern (h : (Tree.node "ObjectPattern" fields).isFormed = true)
    (ih : ∀ b ∈ (Tree.node "ObjectPattern" fields).branches, AgreedOn b.2) :
    Agreed (boundBy (.node "ObjectPattern" fields)) [.node "ObjectPattern" fields]
      (.node "ObjectPattern" fields) := by
  have hlaid := (isFormed_node.1 h).1
  obtain _ | ⟨hproperties, ⟨⟩⟩ := filled_of_isFormed h rfl
  obtain ⟨parts, rfl, -⟩ := accepts_many.1 hproperties.1
  have hparts := holds_many_iff.1 hproperties
  have hagreed : ∀ part ∈ parts, Agreed (boundByProperty part) [part.target] part :=
    fun part hpart => (of_branches_item ih List.mem_cons_self hpart).part (hparts part hpart).2
      (hparts part hpart).isNode
  have hinner : innerPatterns (.node "ObjectPattern" [("properties", .list parts)]) =
      .ok (parts.map target) := by
    have hget : (Tree.node "ObjectPattern" [("properties", .list parts)]).get "properties" =
        .list parts := rfl
    simp only [innerPatterns, kind?, hget, items_list, targets_ok hparts, bind, Except.bind]
  refine agreed_node hlaid (by decide) hinner (fun hpattern => ?_) fun path => ?_
  · exact List.forall_mem_map.2 hpattern.parts
  · rw [boundBy_objectPattern hparts, List.map_eq_flatMap]
    exact agree_items rfl boundByProperties_cons hagreed rfl path

theorem agreed_arrayPattern (h : (Tree.node "ArrayPattern" fields).isFormed = true)
    (ih : ∀ b ∈ (Tree.node "ArrayPattern" fields).branches, AgreedOn b.2) :
    Agreed (boundBy (.node "ArrayPattern" fields)) [.node "ArrayPattern" fields]
      (.node "ArrayPattern" fields) := by
  have hlaid := (isFormed_node.1 h).1
  obtain _ | ⟨hslot, ⟨⟩⟩ := filled_of_isFormed h rfl
  obtain ⟨elements, rfl, -⟩ := accepts_sparse.1 hslot.1
  have hagreed : ∀ element ∈ elements,
      Agreed (boundByElement element) ([element].filter isNode) element := by
    intro element helement
    rcases holds_sparse_iff.1 hslot element helement with rfl | hany
    · exact fun _ _ => ⟨[], .nil⟩
    · rw [boundByElement, if_pos hany.isNode, List.filter_singleton, hany.isNode]
      exact (of_branches_item ih List.mem_cons_self helement).pattern hany.2 hany.isNode
  have hinner : innerPatterns (.node "ArrayPattern" [("elements", .list elements)]) =
      .ok (elements.filter isNode) := by
    have hget : (Tree.node "ArrayPattern" [("elements", .list elements)]).get "elements" =
        .list elements := rfl
    simp only [innerPatterns, kind?, hget, items_list, bind, Except.bind, pure, Except.pure]
  have hfilter : elements.filter isNode =
      elements.flatMap fun element => [element].filter isNode := by
    rw [← List.filter_flatMap, List.flatMap_singleton']
  refine agreed_node hlaid (by decide) hinner (fun hpattern => ?_) fun path => ?_
  · intro element helement
    obtain ⟨hmem, hnode⟩ := List.mem_filter.1 helement
    refine hpattern.elements element hmem ?_
    cases element with
    | null => cases hnode
    | _ => rfl
  · rw [boundBy, boundInElements_eq rfl, hfilter]
    exact agree_items rfl boundByElements_cons hagreed rfl path

theorem agreed_assignmentPattern (h : (Tree.node "AssignmentPattern" fields).isFormed = true)
    (ih : ∀ b ∈ (Tree.node "AssignmentPattern" fields).branches, AgreedOn b.2) :
    Agreed (boundBy (.node "AssignmentPattern" fields)) [.node "AssignmentPattern" fields]
      (.node "AssignmentPattern" fields) := by
  have hlaid := (isFormed_node.1 h).1
  obtain _ | ⟨hleft, _ | ⟨hright, ⟨⟩⟩⟩ := filled_of_isFormed h rfl
  rename_i left right
  have hagreed := (of_branches_field ih "left" (by simp) hleft.isA.isNode).pattern hleft.2
    hleft.isA.isNode
  have hboundBy : boundBy (.node "AssignmentPattern" [("left", left), ("right", right)]) =
      left.boundBy := by
    rw [boundBy, boundInField_eq rfl]
    rfl
  have hinner : innerPatterns (.node "AssignmentPattern" [("left", left), ("right", right)]) =
      .ok [left] := rfl
  refine agreed_node hlaid (by decide) hinner (fun hpattern => ?_) fun path => ?_
  · exact List.forall_mem_singleton.2 hpattern.left
  · rw [hboundBy, bindingSideIn_cons hleft.isA.isNode,
      bindingSideIn_aside hright.isA.isNode rfl, bindingSideIn_nil, List.append_nil]
    exact hagreed _ rfl

theorem agreed_restElement (h : (Tree.node "RestElement" fields).isFormed = true)
    (ih : ∀ b ∈ (Tree.node "RestElement" fields).branches, AgreedOn b.2) :
    Agreed (boundBy (.node "RestElement" fields)) [.node "RestElement" fields]
      (.node "RestElement" fields) := by
  have hlaid := (isFormed_node.1 h).1
  obtain _ | ⟨hargument, ⟨⟩⟩ := filled_of_isFormed h rfl
  rename_i argument
  have hagreed := (of_branches_field ih "argument" (by simp) hargument.isA.isNode).pattern
    hargument.2 hargument.isA.isNode
  have hboundBy : boundBy (.node "RestElement" [("argument", argument)]) = argument.boundBy := by
    rw [boundBy, boundInField_eq rfl]
    rfl
  have hinner : innerPatterns (.node "RestElement" [("argument", argument)]) = .ok [argument] := rfl
  refine agreed_node hlaid (by decide) hinner (fun hpattern => ?_) fun path => ?_
  · exact List.forall_mem_singleton.2 hpattern.argument
  · rw [hboundBy, bindingSideIn_cons hargument.isA.isNode, bindingSideIn_nil,
      List.append_nil]
    exact hagreed _ rfl

/-- No other node binds anything, and none is a pattern. -/
theorem agreed_other (hkind : kind ∉ patternKinds) :
    Agreed (boundBy (.node kind fields)) [.node kind fields] (.node kind fields) := by
  intro spot hspot
  have hinner : innerPatterns (.node kind fields) = .ok [] := by
    simp only [patternKinds, List.mem_cons, List.not_mem_nil, or_false, not_or] at hkind
    simp [innerPatterns, kind?, hkind]
  have hidentifier : kind ≠ "Identifier" := fun heq => hkind (by simp [heq, patternKinds])
  refine ⟨[], boundBy_other fields hkind, ?_, fun hroot => ?_⟩
  · exact .single (expandPattern_node hidentifier hinner) .nil
  · obtain ⟨kind', fields', heq, hpattern⟩ :=
      isAny_iff.1 (List.forall_mem_singleton.1 hroot).isAny
    obtain rfl := (Tree.node.inj heq).1
    exact absurd hpattern hkind

/-- A property binds what its value does. -/
theorem agreed_property (h : (Tree.node "Property" fields).isFormed = true)
    (ih : ∀ b ∈ (Tree.node "Property" fields).branches, AgreedOn b.2) :
    Agreed (boundByProperty (.node "Property" fields)) [(Tree.node "Property" fields).target]
      (.node "Property" fields) := by
  have hlaid := (isFormed_node.1 h).1
  obtain _ | ⟨hkey, _ | ⟨hcomputed, _ | ⟨hvalue, _ | ⟨hkind, _ | ⟨hmethod, _ | ⟨hshort, ⟨⟩⟩⟩⟩⟩⟩⟩ :=
    filled_of_isFormed h rfl
  rename_i key computed value kind method shorthand
  have hagreed := (of_branches_field ih "value" (by simp) hvalue.isA.isNode).pattern hvalue.2
    hvalue.isA.isNode
  intro spot hspot
  obtain ⟨names, hnames⟩ := hagreed (spotAt (.node "Property" [("key", key),
    ("computed", computed), ("value", value), ("kind", kind), ("method", method),
    ("shorthand", shorthand)]) spot.path ⟨"value", 0⟩) rfl
  refine ⟨names, ?_, hnames.lists, fun hvalue' => ?_⟩
  · rw [boundByProperty, boundInField_eq rfl]
    exact hnames.read_eq
  · rw [bindingSide_node hlaid hspot, namesOfIdentifiers, not_isIdentifier (by decide),
      bindingSideIn_aside hkey.isA.isNode rfl,
      bindingSideIn_data (isData_of_accepts hcomputed.1),
      bindingSideIn_cons hvalue.isA.isNode,
      bindingSideIn_data (isData_of_accepts hkind.1),
      bindingSideIn_data (isData_of_accepts hmethod.1),
      bindingSideIn_data (isData_of_accepts hshort.1), bindingSideIn_nil,
      List.append_nil]
    exact hnames.met hvalue'

/-- **The three ways agree**, on every formed node. -/
theorem agreedOn (t : Tree) : AgreedOn t := by
  induction t using branch_induction with
  | step t ih =>
      cases t with
      | node kind fields =>
          have hpattern (hformed : (Tree.node kind fields).isFormed = true) :
              Agreed (boundBy (.node kind fields)) [.node kind fields] (.node kind fields) := by
            by_cases hkind : kind ∈ patternKinds
            · simp only [patternKinds, List.mem_cons, List.not_mem_nil, or_false] at hkind
              rcases hkind with rfl | rfl | rfl | rfl | rfl
              · exact agreed_identifier hformed
              · exact agreed_objectPattern hformed ih
              · exact agreed_arrayPattern hformed ih
              · exact agreed_assignmentPattern hformed ih
              · exact agreed_restElement hformed ih
            · exact agreed_other hkind
          refine ⟨fun hformed _ => hpattern hformed, fun hformed _ => ?_⟩
          by_cases hkind : kind = "Property"
          · subst hkind
            exact agreed_property hformed ih
          · have hread : boundByProperty (.node kind fields) = boundBy (.node kind fields) := by
              rw [boundByProperty]
              rintro fields' heq
              exact hkind (Tree.node.inj heq).1
            have htarget : (Tree.node kind fields).target = .node kind fields := by
              simp [target, isKind, kind?, hkind]
            rw [hread, htarget]
            exact hpattern hformed
      | _ => constructor <;> exact fun _ hnode => absurd hnode Bool.false_ne_true

end Patterns

/-! ## Bound names -/

/-- These are the names that a pattern binds, however they are read. -/
structure Binds (p : Tree) (names : List String) : Prop where
  /-- With a stack, every state on the way goes on to the end, and the names have been yielded
  then. -/
  ends : ∀ m, Steps expandPattern ⟨[p], []⟩ m → Steps expandPattern m ⟨[], names⟩
  /-- The recursion that reads the patterns right inside one by one lists these, and nothing
  else. -/
  recursion : ∀ listed, Lists expandPattern [p] listed ↔ listed = names
  /-- They are the bound names. -/
  boundNames_eq : p.boundNames = .ok names
  /-- If it is a pattern through and through, they are the names of the identifiers that a walk
  meets neither in the key of a property nor in a default. -/
  walk_eq : p.IsPattern → ∃ visits, p.walk = .ok visits ∧
    namesOfIdentifiers (bindingSide visits) = .ok names

/-- **The names a pattern binds** can be read in any of these ways. -/
theorem exists_binds {p : Tree} (h : p.isFormed = true) (hnode : p.isNode = true) :
    ∃ names, p.Binds names := by
  obtain ⟨names, hread, hlists, hmet⟩ := (agreedOn p).pattern h hnode ⟨none, none, []⟩ rfl
  refine ⟨names, fun m hm => hlists.ends hm, fun listed => ?_, ?_, fun hpattern => ?_⟩
  · exact ⟨fun h => hlists.unique h, fun h => h ▸ hlists⟩
  · cases p with
    | node kind fields => exact hread
    | _ => cases hnode
  · cases p with
    | node kind fields =>
        exact ⟨_, walk_node kind fields, hmet (List.forall_mem_singleton.2 hpattern)⟩
    | _ => cases hnode

end Tree

end NameRecovery
