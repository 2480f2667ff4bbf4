import NameRecovery.Proofs.Tree.Respell

/-!
# Bound names follow renamings

Which names a pattern or a declaration binds is read off its tree.  On a formed tree
each of these readings succeeds, and it is *natural*: renaming all bindings of the
tree renames the names that are read in the same way.  So the reading looks at places,
and at no spelling.

* `Tree.Natural` — a reading that succeeds and follows every renaming;
* `Tree.Natural.mem_occurrences` — a natural reading yields names of occurrences only;
* `Tree.boundBy_natural` — patterns are read naturally.
-/

namespace NameRecovery

namespace Tree

/-! ## Renaming, whatever the path -/

/-- A value with its bindings renamed, given whether it stands where an identifier names a
binding. -/
def renameAt (f : String → String) (binding : Bool) (t : Tree) : Tree :=
  respellAt (fun _ name => f name) binding [] t

/-- The value of a field with its bindings renamed. -/
def renameIn (f : String → String) (binding : Bool) : Tree → Tree
  | .list items => .list (items.map (renameAt f binding))
  | t => renameAt f binding t

theorem respellIn_eq_renameIn {f : String → String} {binding : Bool} {path : Path}
    {key : String} {t : Tree}
    (h : ∀ b ∈ placed key t,
      respellAt (fun _ name => f name) binding (path ++ [b.1]) b.2 = renameAt f binding b.2) :
    respellIn (fun _ name => f name) binding path key t = renameIn f binding t := by
  have hplaced : respellIn (fun _ name => f name) binding path key t =
      mapPlaced (fun _ => renameAt f binding) key t := mapPlaced_congr h
  rw [hplaced]
  cases t with
  | list items =>
      have hitems : items.zipIdx.map Prod.fst = items := List.zipIdx_map_fst ..
      conv => rhs; rw [renameIn, ← hitems, List.map_map]
      rfl
  | _ => rfl

/-- A renaming does not look at paths. -/
theorem respellAt_eq_renameAt (f : String → String) (t : Tree) (binding : Bool) (path : Path) :
    respellAt (fun _ name => f name) binding path t = renameAt f binding t := by
  induction t using branch_induction generalizing binding path with
  | step t ih =>
      cases t with
      | node kind fields =>
          rw [renameAt]
          by_cases hkind : kind = "Identifier"
          · subst hkind
            rw [respellAt, respellAt, if_pos rfl, if_pos rfl]
          · rw [respellAt_node hkind, respellAt_node hkind]
            refine congrArg _ (List.map_congr_left fun field hfield => ?_)
            have hbranch := fun b hb binding path =>
              ih b (List.mem_flatMap.2 ⟨field, hfield, hb⟩) binding path
            rw [respellIn_eq_renameIn fun b hb => hbranch b hb _ _,
              respellIn_eq_renameIn fun b hb => hbranch b hb _ _]
      | _ => rfl

theorem renameAt_node {kind : String} (hkind : kind ≠ "Identifier") (f : String → String)
    (binding : Bool) (fields : List (String × Tree)) :
    renameAt f binding (.node kind fields) = .node kind (fields.map fun field =>
      (field.1, renameIn f (names (.node kind fields) field.1) field.2)) := by
  rw [renameAt, respellAt_node hkind]
  refine congrArg _ (List.map_congr_left fun field _ => ?_)
  rw [respellIn_eq_renameIn fun b _ => respellAt_eq_renameAt ..]

theorem renameAt_identifier (f : String → String) (name : String) :
    renameAt f true (.node "Identifier" [("name", .text name)]) =
      .node "Identifier" [("name", .text (f name))] := by
  rw [renameAt, respellAt_identifier, if_pos rfl]

theorem renameAt_id (binding : Bool) (t : Tree) : renameAt (fun name => name) binding t = t :=
  respellAt_id t binding []

@[simp] theorem renameIn_null (f : String → String) (binding : Bool) :
    renameIn f binding .null = .null := rfl

@[simp] theorem renameIn_text (f : String → String) (binding : Bool) (s : String) :
    renameIn f binding (.text s) = .text s := rfl

@[simp] theorem renameIn_node (f : String → String) (binding : Bool) (kind : String)
    (fields : List (String × Tree)) :
    renameIn f binding (.node kind fields) = renameAt f binding (.node kind fields) := rfl

@[simp] theorem renameIn_list (f : String → String) (binding : Bool) (items : List Tree) :
    renameIn f binding (.list items) = .list (items.map (renameAt f binding)) := rfl

@[simp] theorem kind?_renameAt (f : String → String) (binding : Bool) (t : Tree) :
    (renameAt f binding t).kind? = t.kind? := kind?_respellAt ..

@[simp] theorem isNull_renameAt (f : String → String) (binding : Bool) (t : Tree) :
    (renameAt f binding t).isNull = t.isNull := isNull_respellAt ..

/-- The fields of a renamed node are the renamed fields. -/
theorem get?_renameAt {kind : String} (hkind : kind ≠ "Identifier") (f : String → String)
    (binding : Bool) (fields : List (String × Tree)) {key : String} (hkey : key ≠ "type") :
    (renameAt f binding (.node kind fields)).get? key =
      (fields.lookup key).map (renameIn f (names (.node kind fields) key)) := by
  rw [renameAt_node hkind, get?, if_neg hkey,
    lookup_map_value fun key => renameIn f (names (.node kind fields) key)]

/-! ## Natural readings -/

/-- The reading of the value succeeds and follows every renaming. -/
def Natural (read : Tree → Except Fault (List String)) (binding : Bool) (t : Tree) : Prop :=
  ∃ found : List String, ∀ f, read (renameAt f binding t) = .ok (found.map f)

/-- The reading of the values succeeds and follows every renaming. -/
def NaturalAll (read : List Tree → Except Fault (List String)) (binding : Bool)
    (items : List Tree) : Prop :=
  ∃ found : List String, ∀ f, read (items.map (renameAt f binding)) = .ok (found.map f)

variable {read : Tree → Except Fault (List String)} {binding : Bool} {t : Tree}

theorem Natural.read_eq (h : Natural read binding t) :
    ∃ found, read t = .ok found ∧ ∀ f, read (renameAt f binding t) = .ok (found.map f) := by
  obtain ⟨found, hfound⟩ := h
  refine ⟨found, ?_, hfound⟩
  have hid := hfound fun name => name
  rwa [renameAt_id, List.map_id'] at hid

theorem Natural.congr {read' : Tree → Except Fault (List String)} (h : Natural read binding t)
    (heq : ∀ f, read' (renameAt f binding t) = read (renameAt f binding t)) :
    Natural read' binding t := by
  obtain ⟨found, hfound⟩ := h
  exact ⟨found, fun f => (heq f).trans (hfound f)⟩

theorem natural_nil (heq : ∀ f, read (renameAt f binding t) = .ok []) : Natural read binding t :=
  ⟨[], heq⟩

/-- A natural reading yields names of occurrences only: a renaming that keeps these
changes nothing, so it keeps all the names that are read. -/
theorem Natural.mem_occurrences (h : Natural read binding t) (hformed : t.isFormed = true)
    {found : List String} (hread : read t = .ok found) (spot : Spot)
    (hspot : isBindingPlace spot.parent spot.field = binding) {name : String}
    (hname : name ∈ found) : name ∈ (t.occurrencesAt spot).map Prod.snd := by
  by_contra hmissing
  obtain ⟨found', hread', hrename⟩ := h.read_eq
  obtain rfl : found' = found := Except.ok.inj (hread'.symm.trans hread)
  -- Change just the name in question.
  let f : String → String := fun n => if n = name then name ++ name ++ "'" else n
  have hsame : renameAt f binding t = t := by
    rw [← respellAt_eq_renameAt f t binding spot.path, ← hspot]
    refine (respellAt_congr hformed spot fun o ho => ?_).trans (respellAt_id t _ spot.path)
    have hne : o.2 ≠ name := fun heq => hmissing (List.mem_map.2 ⟨o, ho, heq⟩)
    simp only [f, if_neg hne]
  have hfixed := hrename f
  rw [hsame, hread] at hfixed
  have hmap : found'.map f = found'.map id := by rw [List.map_id]; exact (Except.ok.inj hfixed).symm
  have hkept : f name = name := List.map_inj_left.1 hmap name hname
  have hlength := congrArg String.length (show name ++ name ++ "'" = name by simpa [f] using hkept)
  simp only [String.length_append] at hlength
  have hquote : "'".length = 1 := rfl
  omega

/-- Reading values one after the other is natural when reading each of them is. -/
theorem naturalAll_of_forall {readAll : List Tree → Except Fault (List String)}
    (hnil : readAll [] = .ok [])
    (hcons : ∀ item rest, readAll (item :: rest) = do return (← read item) ++ (← readAll rest))
    {items : List Tree} (h : ∀ item ∈ items, Natural read binding item) :
    NaturalAll readAll binding items := by
  induction items with
  | nil => exact ⟨[], fun _ => hnil⟩
  | cons item rest ih =>
      obtain ⟨first, hfirst⟩ := h item List.mem_cons_self
      obtain ⟨others, hothers⟩ := ih fun i hi => h i (List.mem_cons_of_mem _ hi)
      refine ⟨first ++ others, fun f => ?_⟩
      rw [List.map_cons, hcons, hfirst f, hothers f, List.map_append]
      rfl

/-! ## Patterns -/

/-- A formed node of the given kind has a value of the right shape in the field, also
after a renaming. -/
theorem need_renameAt (kind : String) (hkind : kind ≠ "Identifier")
    {fields : List (String × Tree)} {key : String} (hkey : key ≠ "type") {value : Tree}
    (hvalue : fields.lookup key = some value) (f : String → String) (binding : Bool) :
    (renameAt f binding (.node kind fields)).need key =
      .ok (renameIn f (names (.node kind fields) key) value) := by
  have hget := get?_renameAt hkind f binding fields hkey
  rw [hvalue] at hget
  rw [renameAt_node hkind] at hget ⊢
  simp only [need, hget, Option.map_some]

theorem get_renameAt (kind : String) (hkind : kind ≠ "Identifier")
    {fields : List (String × Tree)} {key : String} (hkey : key ≠ "type") {value : Tree}
    (hvalue : fields.lookup key = some value) (f : String → String) (binding : Bool) :
    (renameAt f binding (.node kind fields)).get key =
      renameIn f (names (.node kind fields) key) value := by
  rw [Tree.get, get?_renameAt hkind f binding fields hkey, hvalue]
  rfl

/-- The names one property of an object pattern binds. -/
def boundByProperty : Tree → Except Fault (List String)
  | .node "Property" fields => boundInField "value" fields
  | item => item.boundBy

theorem boundByProperties_cons (item : Tree) (rest : List Tree) :
    boundByProperties (item :: rest) =
      do return (← boundByProperty item) ++ (← boundByProperties rest) := by
  by_cases hproperty : ∃ fields, item = .node "Property" fields
  · obtain ⟨fields, rfl⟩ := hproperty
    rw [boundByProperties, boundByProperty]
  · rw [boundByProperties, boundByProperty]
    · exact fun fields h => hproperty ⟨fields, h⟩
    · exact fun fields h => hproperty ⟨fields, h⟩

/-- The names one element of an array pattern binds. -/
def boundByElement (t : Tree) : Except Fault (List String) :=
  if t.isNode then t.boundBy else .ok []

theorem boundByElements_cons (item : Tree) (rest : List Tree) :
    boundByElements (item :: rest) =
      do return (← boundByElement item) ++ (← boundByElements rest) := by
  cases item with
  | node kind fields => rw [boundByElements]; rfl
  | _ =>
      rw [boundByElements]
      · cases boundByElements rest <;> rfl
      · simp

theorem boundInField_eq {key : String} {fields : List (String × Tree)} {value : Tree}
    (h : fields.lookup key = some value) : boundInField key fields = value.boundBy := by
  induction fields with
  | nil => cases h
  | cons field rest ih =>
      obtain ⟨k, v⟩ := field
      rw [List.lookup_cons] at h
      rw [boundInField]
      cases hkey : key == k with
      | true =>
          rw [hkey] at h
          rw [if_pos (beq_iff_eq.1 hkey).symm, Option.some.inj h]
      | false =>
          rw [hkey] at h
          rw [if_neg fun heq => by simp [heq] at hkey, ih h]

theorem boundBy_other {kind : String} (fields : List (String × Tree))
    (hkind : kind ∉ ["Identifier", "ObjectPattern", "ArrayPattern", "AssignmentPattern",
      "RestElement"]) : boundBy (.node kind fields) = .ok [] := by
  simp only [List.mem_cons, List.not_mem_nil, or_false, not_or] at hkind
  rw [boundBy]
  all_goals simp_all

theorem checkProperties_ok {items : List Tree}
    (h : ∀ item ∈ items, ∃ kind fields, item = .node kind fields ∧
      (kind = "Property" → ∃ value, fields.lookup "value" = some value)) :
    checkProperties items = .ok () := by
  induction items with
  | nil => rfl
  | cons item rest ih =>
      obtain ⟨kind, fields, rfl, hvalue⟩ := h item List.mem_cons_self
      rw [checkProperties, ih fun i hi => h i (List.mem_cons_of_mem _ hi)]
      by_cases hkind : kind = "Property"
      · obtain ⟨value, hvalue⟩ := hvalue hkind
        simp [withFields, need, get?, hvalue, bind, Except.bind, pure, Except.pure]
      · simp [withFields, isKind, kind?, hkind, bind, Except.bind, pure, Except.pure]

theorem isNode_of_isAny {kinds : List String} (h : t.isAny kinds = true) : t.isNode = true := by
  obtain ⟨kind, fields, rfl, -⟩ := isAny_iff.1 h
  rfl

theorem renameIn_of_isNode (h : t.isNode = true) (f : String → String) :
    renameIn f binding t = renameAt f binding t := by
  cases t with
  | node kind fields => rfl
  | _ => exact absurd h (by simp [isNode, kind?])

theorem boundInProperties_eq {fields : List (String × Tree)} {items : List Tree}
    (h : fields.lookup "properties" = some (.list items)) :
    boundInProperties fields = boundByProperties items := by
  induction fields with
  | nil => cases h
  | cons field rest ih =>
      obtain ⟨key, value⟩ := field
      rw [List.lookup_cons] at h
      cases hkey : "properties" == key with
      | true =>
          rw [hkey] at h
          rw [Option.some.inj h, boundInProperties, if_pos (beq_iff_eq.1 hkey).symm]
      | false =>
          rw [hkey] at h
          have hne : key ≠ "properties" := fun heq => by simp [heq] at hkey
          cases value with
          | list _ => rw [boundInProperties, if_neg hne, ih h]
          | _ => rw [boundInProperties, ih h]; simp

theorem boundInElements_eq {fields : List (String × Tree)} {items : List Tree}
    (h : fields.lookup "elements" = some (.list items)) :
    boundInElements fields = boundByElements items := by
  induction fields with
  | nil => cases h
  | cons field rest ih =>
      obtain ⟨key, value⟩ := field
      rw [List.lookup_cons] at h
      cases hkey : "elements" == key with
      | true =>
          rw [hkey] at h
          rw [Option.some.inj h, boundInElements, if_pos (beq_iff_eq.1 hkey).symm]
      | false =>
          rw [hkey] at h
          have hne : key ≠ "elements" := fun heq => by simp [heq] at hkey
          cases value with
          | list _ => rw [boundInElements, if_neg hne, ih h]
          | _ => rw [boundInElements, ih h]; simp

@[simp] theorem items_list (items : List Tree) : (Tree.list items).items = .ok items := by
  cases items <;> rfl

theorem lookup_renameAt (kind : String) {fields : List (String × Tree)} {key : String}
    {value : Tree} (h : fields.lookup key = some value) (f : String → String) :
    (fields.map fun field =>
      (field.1, renameIn f (names (.node kind fields) field.1) field.2)).lookup key =
      some (renameIn f (names (.node kind fields) key) value) := by
  rw [lookup_map_value fun key => renameIn f (names (.node kind fields) key), h]
  rfl

section Patterns

variable {fields : List (String × Tree)}

theorem boundBy_identifier_natural (h : (Tree.node "Identifier" fields).isFormed = true) :
    Natural boundBy true (.node "Identifier" fields) := by
  obtain ⟨name, rfl⟩ := fields_of_identifier (isFormed_node.1 h).1
  refine ⟨[name], fun f => ?_⟩
  rw [renameAt_identifier, boundBy]
  rfl

theorem boundBy_objectPattern_natural (h : (Tree.node "ObjectPattern" fields).isFormed = true)
    (hitems : ∀ {key items}, fields.lookup key = some (.list items) →
      ∀ item ∈ items, item.isNode = true → Natural boundByProperty true item) :
    Natural boundBy true (.node "ObjectPattern" fields) := by
  obtain ⟨value, hvalue, haccepts, hformed⟩ :=
    lookup_of_isFormed h "properties" (.many propertyKinds) rfl
  obtain ⟨items, rfl, hkinds⟩ := accepts_many.1 haccepts
  obtain ⟨found, hfound⟩ := naturalAll_of_forall rfl boundByProperties_cons
    fun item hitem => hitems hvalue item hitem (isNode_of_isAny (hkinds item hitem))
  refine ⟨found, fun f => ?_⟩
  have hlookup := lookup_renameAt "ObjectPattern" hvalue f
  have hcheck : checkProperties (items.map (renameAt f true)) = .ok () := by
    refine checkProperties_ok fun item' hitem' => ?_
    obtain ⟨item, hitem, rfl⟩ := List.mem_map.1 hitem'
    have hformed' : (renameAt f true item).isFormed = true :=
      isFormed_respellAt (isFormed_list.1 hformed item hitem) ..
    have hany : (renameAt f true item).isAny propertyKinds = true := by
      rw [renameAt, isAny_respellAt]
      exact hkinds item hitem
    obtain ⟨kind, fields', heq, -⟩ := isAny_iff.1 hany
    rw [heq] at hformed' ⊢
    refine ⟨kind, fields', rfl, fun hkind => ?_⟩
    subst hkind
    obtain ⟨value, hvalue, -⟩ :=
      lookup_of_isFormed hformed' "value" (.one expressionKinds) rfl
    exact ⟨value, hvalue⟩
  have hget : (renameAt f true (.node "ObjectPattern" fields)).get "properties" =
      .list (items.map (renameAt f true)) :=
    get_renameAt "ObjectPattern" (by decide) (by decide) hvalue f true
  rw [renameAt_node (by decide)] at hget ⊢
  rw [boundBy, hget, items_list, boundInProperties_eq hlookup, ← hfound f]
  simp only [bind, Except.bind, hcheck]
  rfl

theorem boundBy_arrayPattern_natural (h : (Tree.node "ArrayPattern" fields).isFormed = true)
    (hitems : ∀ {key items}, fields.lookup key = some (.list items) →
      ∀ item ∈ items, item.isNode = true → Natural boundBy true item) :
    Natural boundBy true (.node "ArrayPattern" fields) := by
  obtain ⟨value, hvalue, haccepts, -⟩ :=
    lookup_of_isFormed h "elements" (.sparse expressionKinds) rfl
  obtain ⟨items, rfl, -⟩ := accepts_sparse.1 haccepts
  have helement : ∀ item ∈ items, Natural boundByElement true item := by
    intro item hitem
    cases hnode : item.isNode with
    | true =>
        refine (hitems hvalue item hitem hnode).congr fun f => ?_
        rw [boundByElement, isNode, kind?_renameAt, ← isNode, hnode, if_pos rfl]
    | false =>
        refine natural_nil fun f => ?_
        rw [boundByElement, isNode, kind?_renameAt, ← isNode, hnode]
        rfl
  obtain ⟨found, hfound⟩ := naturalAll_of_forall rfl boundByElements_cons helement
  refine ⟨found, fun f => ?_⟩
  have hlookup := lookup_renameAt "ArrayPattern" hvalue f
  rw [renameAt_node (by decide), boundBy, boundInElements_eq hlookup]
  exact hfound f

/-- A pattern that only wraps another one binds what that one binds. -/
theorem boundBy_wrapper_natural {kind key : String} (hkind : kind ≠ "Identifier")
    (hkey : key ≠ "type") {value : Tree} (hvalue : fields.lookup key = some value)
    (hplace : names (.node kind fields) key = true) (hnode : value.isNode = true)
    (hboundBy : ∀ fields', boundBy (.node kind fields') =
      do let _ ← (Tree.node kind fields').need key; boundInField key fields')
    (h : Natural boundBy true value) : Natural boundBy true (.node kind fields) := by
  obtain ⟨found, hfound⟩ := h
  refine ⟨found, fun f => ?_⟩
  have hneed := need_renameAt kind hkind hkey hvalue f true
  have hlookup := lookup_renameAt kind hvalue f
  rw [hplace, renameIn_of_isNode hnode] at hneed hlookup
  rw [renameAt_node hkind] at hneed ⊢
  rw [hboundBy, hneed, boundInField_eq hlookup, ← hfound f]
  rfl

theorem boundByProperty_natural {kind : String} (h : (Tree.node kind fields).isFormed = true)
    (hvalues : ∀ {key value}, fields.lookup key = some value → value.isNode = true →
      Natural boundBy true value)
    (hself : Natural boundBy true (.node kind fields)) :
    Natural boundByProperty true (.node kind fields) := by
  by_cases hkind : kind = "Property"
  · subst hkind
    obtain ⟨value, hvalue, haccepts, -⟩ :=
      lookup_of_isFormed h "value" (.one expressionKinds) rfl
    have hnode := isNode_of_isAny haccepts
    obtain ⟨found, hfound⟩ := hvalues hvalue hnode
    refine ⟨found, fun f => ?_⟩
    have hlookup := lookup_renameAt "Property" hvalue f
    rw [renameIn_of_isNode hnode] at hlookup
    rw [renameAt_node (by decide), boundByProperty, boundInField_eq hlookup]
    exact hfound f
  · refine hself.congr fun f => ?_
    have hother : ∀ fields', renameAt f true (.node kind fields) ≠ .node "Property" fields' := by
      intro fields' heq
      have hkinds := congrArg kind? heq
      rw [kind?_renameAt] at hkinds
      exact hkind (Option.some.inj hkinds)
    rw [boundByProperty]
    exact fun fields' heq => hother fields' heq

/-- The names a formed pattern binds are read naturally, and so are those of one property
of an object pattern. -/
theorem boundBy_natural {t : Tree} (h : t.isFormed = true) (hnode : t.isNode = true) :
    Natural boundBy true t ∧ Natural boundByProperty true t := by
  induction t using branch_induction with
  | step t ih =>
      cases t with
      | node kind fields =>
          have hvalues : ∀ {key value}, fields.lookup key = some value → value.isNode = true →
              Natural boundBy true value := by
            intro key value hvalue hisNode
            have hne : ∀ items, value ≠ .list items := by rintro items rfl; cases hisNode
            have hb := mem_branches_of_lookup kind hvalue (b := (⟨key, 0⟩, value))
              (by rw [placed_of_ne_list hne]; exact List.mem_singleton.2 rfl)
            exact (ih _ hb (isFormed_branch h hb) hisNode).1
          have hitems : ∀ {key items}, fields.lookup key = some (.list items) →
              ∀ item ∈ items, item.isNode = true →
              Natural boundBy true item ∧ Natural boundByProperty true item := by
            intro key items hvalue item hitem hisNode
            obtain ⟨b, hb, rfl⟩ := exists_placed_of_mem hitem
            have hb := mem_branches_of_lookup kind hvalue hb
            exact ih b hb (isFormed_branch h hb) hisNode
          have hself : Natural boundBy true (.node kind fields) := by
            by_cases hpattern : kind ∈ ["Identifier", "ObjectPattern", "ArrayPattern",
                "AssignmentPattern", "RestElement"]
            · simp only [List.mem_cons, List.not_mem_nil, or_false] at hpattern
              rcases hpattern with rfl | rfl | rfl | rfl | rfl
              · exact boundBy_identifier_natural h
              · exact boundBy_objectPattern_natural h
                  fun hvalue item hitem hisNode => (hitems hvalue item hitem hisNode).2
              · exact boundBy_arrayPattern_natural h
                  fun hvalue item hitem hisNode => (hitems hvalue item hitem hisNode).1
              · obtain ⟨value, hvalue, haccepts, -⟩ :=
                  lookup_of_isFormed h "left" (.one expressionKinds) rfl
                have hisNode := isNode_of_isAny haccepts
                exact boundBy_wrapper_natural (by decide) (by decide) hvalue rfl hisNode
                  (fun _ => by rw [boundBy]) (hvalues hvalue hisNode)
              · obtain ⟨value, hvalue, haccepts, -⟩ :=
                  lookup_of_isFormed h "argument" (.one expressionKinds) rfl
                have hisNode := isNode_of_isAny haccepts
                exact boundBy_wrapper_natural (by decide) (by decide) hvalue rfl hisNode
                  (fun _ => by rw [boundBy]) (hvalues hvalue hisNode)
            · refine natural_nil fun f => ?_
              have hkind : kind ≠ "Identifier" := fun heq => hpattern (by simp [heq])
              rw [renameAt_node hkind, boundBy_other _ hpattern]
          exact ⟨hself, boundByProperty_natural h hvalues hself⟩
      | _ => exact absurd hnode (by simp [isNode, kind?])

end Patterns

theorem boundNames_natural (h : t.isFormed = true) (hshape : t.isNull = true ∨ t.isNode = true) :
    Natural boundNames true t := by
  cases hnull : t.isNull with
  | true =>
      refine natural_nil fun f => ?_
      rw [boundNames, isNull_renameAt, hnull, if_pos rfl]
  | false =>
      have hnode : t.isNode = true := by simpa [hnull] using hshape
      refine (boundBy_natural h hnode).1.congr fun f => ?_
      rw [boundNames, isNull_renameAt, hnull]
      rfl

theorem boundNamesOf_natural {items : List Tree}
    (h : ∀ item ∈ items, item.isFormed = true ∧ item.isNode = true) :
    NaturalAll boundNamesOf true items :=
  naturalAll_of_forall rfl (fun _ _ => rfl)
    fun item hitem => boundNames_natural (h item hitem).1 (.inr (h item hitem).2)

/-! ## Declarations -/

/-- The name in a field that holds an identifier is read naturally. -/
theorem nameIn_natural {kind : String} (hkind : kind ≠ "Identifier")
    {fields : List (String × Tree)} {key : String} (hkey : key ≠ "type") {value : Tree}
    (hvalue : fields.lookup key = some value) (hformed : value.isFormed = true)
    (hany : value.isAny ["Identifier"] = true)
    (hplace : names (.node kind fields) key = true) :
    Natural (fun t => do return [← t.nameIn key]) binding (.node kind fields) := by
  obtain ⟨kind', fields', rfl, hkind'⟩ := isAny_iff.1 hany
  obtain rfl := List.mem_singleton.1 hkind'
  obtain ⟨name, rfl⟩ := fields_of_identifier (isFormed_node.1 hformed).1
  refine ⟨[name], fun f => ?_⟩
  have hneed := need_renameAt kind hkind hkey hvalue f binding
  rw [hplace, renameIn_node, renameAt_identifier] at hneed
  simp only [nameIn, hneed]
  rfl

theorem declaratorNames_natural (binding : Bool) {items : List Tree}
    (h : ∀ item ∈ items, item.isFormed = true ∧ item.isAny ["VariableDeclarator"] = true) :
    NaturalAll declaratorNames binding items := by
  have hcons : ∀ item rest, declaratorNames (item :: rest) =
      do return (← (do (← item.need "id").boundNames)) ++ (← declaratorNames rest) := by
    intro item rest
    rw [declaratorNames]
    cases item.need "id" <;> rfl
  refine naturalAll_of_forall rfl hcons fun item hitem => ?_
  obtain ⟨hformed, hany⟩ := h item hitem
  obtain ⟨kind, fields, rfl, hkind⟩ := isAny_iff.1 hany
  obtain rfl := List.mem_singleton.1 hkind
  obtain ⟨id, hid, haccepts, hformed'⟩ :=
    lookup_of_isFormed hformed "id" (.one expressionKinds) rfl
  have hnode := isNode_of_isAny haccepts
  obtain ⟨found, hfound⟩ := boundNames_natural hformed' (.inr hnode)
  refine ⟨found, fun f => ?_⟩
  have hneed := need_renameAt "VariableDeclarator" (by decide) (by decide) hid f binding
  rw [renameIn_of_isNode hnode] at hneed
  simp only [hneed]
  exact hfound f

theorem declarations_natural {fields : List (String × Tree)}
    (h : (Tree.node "VariableDeclaration" fields).isFormed = true) :
    Natural (fun t => do declaratorNames (← (← t.need "declarations").listed)) binding
      (.node "VariableDeclaration" fields) := by
  obtain ⟨value, hvalue, haccepts, hformed⟩ :=
    lookup_of_isFormed h "declarations" (.many ["VariableDeclarator"]) rfl
  obtain ⟨items, rfl, hkinds⟩ := accepts_many.1 haccepts
  obtain ⟨found, hfound⟩ := declaratorNames_natural true
    fun item hitem => ⟨isFormed_list.1 hformed item hitem, hkinds item hitem⟩
  refine ⟨found, fun f => ?_⟩
  have hneed := need_renameAt "VariableDeclaration" (by decide) (by decide) hvalue f binding
  simp only [hneed]
  exact hfound f

/-- A renaming leaves the kind of a declaration alone. -/
theorem get?_kind_renameAt {fields : List (String × Tree)}
    (h : (Tree.node "VariableDeclaration" fields).isFormed = true) (f : String → String) :
    (renameAt f binding (.node "VariableDeclaration" fields)).get? "kind" =
      (Tree.node "VariableDeclaration" fields).get? "kind" := by
  obtain ⟨value, hvalue, haccepts, -⟩ := lookup_of_isFormed h "kind" .text rfl
  obtain ⟨s, rfl⟩ := accepts_text.1 haccepts
  rw [get?_renameAt (by decide) f binding fields (by decide), hvalue]
  simp [get?, hvalue]

end Tree
end NameRecovery
