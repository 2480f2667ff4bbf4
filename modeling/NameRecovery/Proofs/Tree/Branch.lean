import NameRecovery.Proofs.Tree.Schema
import Mathlib.Data.List.Nodup

/-!
# Trees by their branches

Every traversal of a tree goes through the same values: those in the fields of a
node, one by one, with the step that leads to each.  The traversals are defined
field by field and in document order; on formed trees all of that comes down to
the list of branches.

* `Tree.branches` — the values right below a node, each with its place;
* `Tree.branch_induction` — what holds of a tree once it holds of its branches,
  holds of all trees;
* `Tree.inDocumentOrder_eq` — on a formed node, document order is the order of the
  fields, less those that hold plain data.
-/

namespace NameRecovery.Tree

/-! ## Branches -/

/-- The values in a field, each with its place: the items of a list, or the value
itself. -/
def placed (key : String) : Tree → List (Step × Tree)
  | .list items => items.zipIdx.map fun item => (⟨key, item.2⟩, item.1)
  | t => [(⟨key, 0⟩, t)]

/-- The values in the fields, each with its place. -/
def placedIn (fields : List (String × Tree)) : List (Step × Tree) :=
  fields.flatMap fun field => placed field.1 field.2

/-- The values right below a node, each with its place. -/
def branches : Tree → List (Step × Tree)
  | .node _ fields => placedIn fields
  | _ => []

theorem placed_of_ne_list {key : String} {t : Tree} (h : ∀ items, t ≠ .list items) :
    placed key t = [(⟨key, 0⟩, t)] := by
  cases t with
  | list items => exact absurd rfl (h items)
  | _ => rfl

theorem placed_field {key : String} {t : Tree} {b : Step × Tree} (h : b ∈ placed key t) :
    b.1.field = key := by
  cases t with
  | list items =>
      obtain ⟨item, -, rfl⟩ := List.mem_map.1 h
      rfl
  | _ => rw [List.mem_singleton.1 h]

theorem sizeOf_placed {key : String} {t : Tree} {b : Step × Tree} (h : b ∈ placed key t) :
    sizeOf b.2 ≤ sizeOf t := by
  cases t with
  | list items =>
      obtain ⟨item, hmem, rfl⟩ := List.mem_map.1 h
      have hitem : item.1 ∈ items := List.fst_mem_of_mem_zipIdx hmem
      have := List.sizeOf_lt_of_mem hitem
      simp only [Tree.list.sizeOf_spec]
      omega
  | _ => exact Nat.le_of_eq (by rw [List.mem_singleton.1 h])

theorem sizeOf_branch {t : Tree} {b : Step × Tree} (h : b ∈ t.branches) :
    sizeOf b.2 < sizeOf t := by
  cases t with
  | node kind fields =>
      obtain ⟨field, hfield, hb⟩ := List.mem_flatMap.1 h
      have hle := sizeOf_placed hb
      have hlt := List.sizeOf_lt_of_mem hfield
      have hpair : sizeOf field.2 < sizeOf field := by
        cases field
        simp only [Prod.mk.sizeOf_spec]
        omega
      simp only [Tree.node.sizeOf_spec]
      omega
  | _ => exact absurd h List.not_mem_nil

/-- What holds of a tree once it holds of its branches, holds of all trees. -/
@[elab_as_elim]
theorem branch_induction {P : Tree → Prop} (t : Tree)
    (step : ∀ t, (∀ b ∈ t.branches, P b.2) → P t) : P t := by
  induction hsize : sizeOf t using Nat.strongRecOn generalizing t with
  | ind n ih =>
      subst hsize
      exact step t fun b hb => ih _ (sizeOf_branch hb) b.2 rfl

theorem mem_branches_of_lookup (kind : String) {fields : List (String × Tree)} {key : String}
    {value : Tree} (h : fields.lookup key = some value) {b : Step × Tree}
    (hb : b ∈ placed key value) : b ∈ (Tree.node kind fields).branches := by
  obtain ⟨l₁, l₂, hfields, -⟩ := List.lookup_eq_some_iff.1 h
  exact List.mem_flatMap.2 ⟨(key, value), by simp [hfields], hb⟩

theorem exists_placed_of_mem {key : String} {items : List Tree} {item : Tree}
    (h : item ∈ items) : ∃ b ∈ placed key (.list items), b.2 = item := by
  obtain ⟨index, hindex, rfl⟩ := List.mem_iff_getElem.1 h
  refine ⟨(⟨key, index⟩, items[index]), List.mem_map.2 ⟨(items[index], index), ?_, rfl⟩, rfl⟩
  exact List.mk_mem_zipIdx_iff_getElem?.2 (List.getElem?_eq_getElem hindex)

/-- What holds of the branches holds of a node in a field. -/
theorem of_branches_field {P : Tree → Prop} {kind : String} {fields : List (String × Tree)}
    (h : ∀ b ∈ (Tree.node kind fields).branches, P b.2) (key : String) {t : Tree} (hmem : (key, t) ∈ fields)
    (hnode : t.isNode = true) : P t := by
  have hne : ∀ items, t ≠ .list items := by
    rintro items rfl
    cases hnode
  exact h (⟨key, 0⟩, t) (List.mem_flatMap.2 ⟨_, hmem, by rw [placed_of_ne_list hne]; simp⟩)

/-- What holds of the branches holds of the items of a list in a field. -/
theorem of_branches_item {P : Tree → Prop} {kind key : String} {fields : List (String × Tree)}
    (h : ∀ b ∈ (Tree.node kind fields).branches, P b.2) {items : List Tree}
    (hmem : (key, .list items) ∈ fields) {t : Tree} (ht : t ∈ items) : P t := by
  obtain ⟨b, hb, rfl⟩ := @exists_placed_of_mem key items t ht
  exact h b (List.mem_flatMap.2 ⟨_, hmem, hb⟩)

/-! ## Formed trees -/

theorem areFormedFields_iff {fields : List (String × Tree)} :
    areFormedFields fields = true ↔ ∀ f ∈ fields, f.2.isFormed = true := by
  induction fields with
  | nil => simp [areFormedFields]
  | cons field rest ih => simp [areFormedFields, ih]

theorem areFormed_iff {items : List Tree} :
    areFormed items = true ↔ ∀ t ∈ items, t.isFormed = true := by
  induction items with
  | nil => simp [areFormed]
  | cons item rest ih => simp [areFormed, ih]

theorem isFormed_node {kind : String} {fields : List (String × Tree)} :
    (Tree.node kind fields).isFormed = true ↔
      isLaidOut kind fields = true ∧ ∀ f ∈ fields, f.2.isFormed = true := by
  rw [isFormed, Bool.and_eq_true, areFormedFields_iff]

theorem isFormed_list {items : List Tree} :
    (Tree.list items).isFormed = true ↔ ∀ t ∈ items, t.isFormed = true := by
  rw [isFormed, areFormed_iff]

theorem isFormed_placed {key : String} {t : Tree} (h : t.isFormed = true) {b : Step × Tree}
    (hb : b ∈ placed key t) : b.2.isFormed = true := by
  cases t with
  | list items =>
      obtain ⟨item, hmem, rfl⟩ := List.mem_map.1 hb
      exact isFormed_list.1 h _ (List.fst_mem_of_mem_zipIdx hmem)
  | _ => rw [List.mem_singleton.1 hb]; exact h

/-- The branches of a formed tree are formed. -/
theorem isFormed_branch {t : Tree} (h : t.isFormed = true) {b : Step × Tree}
    (hb : b ∈ t.branches) : b.2.isFormed = true := by
  cases t with
  | node kind fields =>
      obtain ⟨field, hfield, hb⟩ := List.mem_flatMap.1 hb
      exact isFormed_placed ((isFormed_node.1 h).2 field hfield) hb
  | _ => exact absurd hb List.not_mem_nil

theorem fits_nil {fields : List (String × Tree)} : fits [] fields = true ↔ fields = [] := by
  cases fields <;> simp [fits]

theorem fits_cons {key : String} {slot : Slot} {layout : Layout}
    {fields : List (String × Tree)} :
    fits ((key, slot) :: layout) fields = true ↔
      ∃ value rest, fields = (key, value) :: rest ∧ slot.accepts value = true ∧
        fits layout rest = true := by
  cases fields with
  | nil => simp [fits]
  | cons field rest =>
      obtain ⟨k, value⟩ := field
      simp only [fits, Bool.and_eq_true, decide_eq_true_eq, List.cons.injEq, Prod.mk.injEq]
      constructor
      · rintro ⟨⟨rfl, hvalue⟩, hrest⟩
        exact ⟨value, rest, ⟨⟨rfl, rfl⟩, rfl⟩, hvalue, hrest⟩
      · rintro ⟨_, _, ⟨⟨rfl, rfl⟩, rfl⟩, hvalue, hrest⟩
        exact ⟨⟨rfl, hvalue⟩, hrest⟩

theorem isLaidOut_iff {kind : String} {fields : List (String × Tree)} :
    isLaidOut kind fields = true ↔ ∃ layout, (kind, layout) ∈ schema ∧ fits layout fields = true := by
  simp only [isLaidOut, layouts, List.any_eq_true, List.mem_map, List.mem_filter, beq_iff_eq]
  constructor
  · rintro ⟨layout, ⟨⟨k, l⟩, ⟨hmem, rfl⟩, rfl⟩, hfits⟩
    exact ⟨l, hmem, hfits⟩
  · rintro ⟨layout, hmem, hfits⟩
    exact ⟨layout, ⟨(kind, layout), ⟨hmem, rfl⟩, rfl⟩, hfits⟩

theorem accepts_many {kinds : List String} {t : Tree} :
    (Slot.many kinds).accepts t = true ↔ ∃ items, t = .list items ∧
      ∀ item ∈ items, item.isAny kinds = true := by
  cases t <;> simp [Slot.accepts]

theorem accepts_sparse {kinds : List String} {t : Tree} :
    (Slot.sparse kinds).accepts t = true ↔ ∃ items, t = .list items ∧
      ∀ item ∈ items, item.isNull = true ∨ item.isAny kinds = true := by
  cases t <;> simp [Slot.accepts]

theorem accepts_maybe {kinds : List String} {t : Tree} :
    (Slot.maybe kinds).accepts t = true ↔ t = .null ∨ t.isAny kinds = true := by
  cases t <;> simp [Slot.accepts, isNull, isAny, kind?]

theorem accepts_text {t : Tree} : Slot.text.accepts t = true ↔ ∃ s, t = .text s := by
  cases t <;> simp [Slot.accepts]

theorem accepts_flag {t : Tree} : Slot.flag.accepts t = true ↔ ∃ b, t = .bool b := by
  cases t <;> simp [Slot.accepts]

theorem isAny_iff {kinds : List String} {t : Tree} :
    t.isAny kinds = true ↔ ∃ kind fields, t = .node kind fields ∧ kind ∈ kinds := by
  cases t <;> simp [isAny, kind?]

theorem lookup_of_fits {layout : Layout} {fields : List (String × Tree)}
    (h : fits layout fields = true) {key : String} {slot : Slot}
    (hslot : layout.lookup key = some slot) :
    ∃ value, fields.lookup key = some value ∧ (key, value) ∈ fields ∧
      slot.accepts value = true := by
  induction layout generalizing fields with
  | nil => cases hslot
  | cons entry layout ih =>
      obtain ⟨k, s⟩ := entry
      obtain ⟨value, rest, rfl, hvalue, hrest⟩ := fits_cons.1 h
      rw [List.lookup_cons] at hslot
      rw [List.lookup_cons]
      cases hkey : key == k with
      | true =>
          rw [hkey] at hslot
          rw [← Option.some.inj hslot, beq_iff_eq.1 hkey]
          exact ⟨value, rfl, List.mem_cons_self, hvalue⟩
      | false =>
          rw [hkey] at hslot
          obtain ⟨value', hlookup, hmem, haccepts⟩ := ih hrest hslot
          exact ⟨value', hlookup, List.mem_cons_of_mem _ hmem, haccepts⟩

/-- A field that the kind of a formed node has holds what it has to. -/
theorem lookup_of_isFormed {kind : String} {fields : List (String × Tree)}
    (h : (Tree.node kind fields).isFormed = true) (key : String) (slot : Slot)
    (hslot : (layouts kind).map (fun layout => layout.lookup key) = [some slot]) :
    ∃ value, fields.lookup key = some value ∧ slot.accepts value = true ∧
      value.isFormed = true := by
  obtain ⟨hlaid, hfields⟩ := isFormed_node.1 h
  obtain ⟨layout, hlayout, hfits⟩ := List.any_eq_true.1 hlaid
  have hmem := List.mem_map_of_mem (f := fun layout => layout.lookup key) hlayout
  rw [hslot, List.mem_singleton] at hmem
  obtain ⟨value, hlookup, hvalue, haccepts⟩ := lookup_of_fits hfits hmem
  exact ⟨value, hlookup, haccepts, hfields _ hvalue⟩

/-- The value of the first field may be any other that the field may hold. -/
theorem isFormed_head {kind key : String} {slot : Slot} {layout : Layout} {value value' : Tree}
    {rest : List (String × Tree)} (hlayouts : layouts kind = [(key, slot) :: layout])
    (h : (Tree.node kind ((key, value) :: rest)).isFormed = true)
    (haccepts : slot.accepts value' = true) (hvalue' : value'.isFormed = true) :
    (Tree.node kind ((key, value') :: rest)).isFormed = true := by
  rw [isFormed_node, isLaidOut, hlayouts, List.any_cons, List.any_nil, Bool.or_false] at h ⊢
  obtain ⟨_, _, heq, -, hrest⟩ := fits_cons.1 h.1
  obtain ⟨-, rfl⟩ := List.cons.inj heq
  refine ⟨fits_cons.2 ⟨value', rest, rfl, haccepts, hrest⟩, fun f hf => ?_⟩
  rcases List.mem_cons.1 hf with rfl | hf
  · exact hvalue'
  · exact h.2 f (List.mem_cons_of_mem _ hf)

/-- The kinds of nodes a field may hold. -/
def Slot.kinds : Slot → List String
  | .one kinds | .maybe kinds | .many kinds | .sparse kinds => kinds
  | .text | .flag | .record => []

theorem isAny_of_placed {slot : Slot} {key : String} {value : Tree}
    (h : slot.accepts value = true) {b : Step × Tree} (hb : b ∈ placed key value)
    (hnode : b.2.isNode = true) : b.2.isAny slot.kinds = true := by
  by_cases hlist : ∃ items, value = .list items
  · obtain ⟨items, rfl⟩ := hlist
    obtain ⟨item, hitem, rfl⟩ := List.mem_map.1 hb
    have hmem := List.fst_mem_of_mem_zipIdx hitem
    cases slot with
    | many kinds => exact (List.all_eq_true.1 h) _ hmem
    | sparse kinds =>
        have hitem' := (List.all_eq_true.1 h) _ hmem
        cases hvalue : item.1 with
        | node kind fields => rw [hvalue] at hitem'; exact hitem'
        | _ => rw [hvalue] at hnode; cases hnode
    | _ => cases h
  · rw [placed_of_ne_list fun items heq => hlist ⟨items, heq⟩, List.mem_singleton] at hb
    subst hb
    cases value with
    | node kind fields => cases slot <;> first | exact h | cases h
    | _ => cases hnode

/-- A node in a field is of one of the kinds the field may hold. -/
theorem isAny_of_branch {layout : Layout} {fields : List (String × Tree)}
    (h : fits layout fields = true) {b : Step × Tree} (hb : b ∈ placedIn fields)
    (hnode : b.2.isNode = true) :
    ∃ entry ∈ layout, entry.1 = b.1.field ∧ b.2.isAny entry.2.kinds = true := by
  induction layout generalizing fields with
  | nil => rw [fits_nil.1 h] at hb; cases hb
  | cons entry layout ih =>
      obtain ⟨value, rest, rfl, hvalue, hrest⟩ := fits_cons.1 h
      rcases List.mem_append.1 hb with hb | hb
      · exact ⟨entry, List.mem_cons_self, (placed_field hb).symm, isAny_of_placed hvalue hb hnode⟩
      · obtain ⟨entry', hmem, hkey, hany⟩ := ih hrest hb
        exact ⟨entry', List.mem_cons_of_mem _ hmem, hkey, hany⟩

theorem schema_no_program :
    ∀ entry ∈ schema, ∀ field ∈ entry.2, field.2.kinds.contains "Program" = false := by
  decide +kernel

/-- No program stands inside a formed tree. -/
theorem kind_ne_program {kind : String} {fields : List (String × Tree)}
    (h : isLaidOut kind fields = true) {b : Step × Tree} (hb : b ∈ placedIn fields) :
    b.2.kind? ≠ some "Program" := by
  obtain ⟨layout, hmem, hfits⟩ := isLaidOut_iff.1 h
  intro hkind
  have hnode : b.2.isNode = true := by rw [isNode, hkind]; rfl
  obtain ⟨field, hfield, -, hany⟩ := isAny_of_branch hfits hb hnode
  rw [isAny, hkind, Option.any_some, schema_no_program _ hmem field hfield] at hany
  cases hany

/-! ## Document order -/

/-- Is the value plain data, which holds no nodes? -/
def isData : Tree → Bool
  | .null | .list _ | .node _ _ => false
  | _ => true

/-- Does the field hold plain data? -/
def Slot.isData : Slot → Bool
  | .text | .flag | .record => true
  | _ => false

theorem isData_of_accepts {slot : Slot} {t : Tree} (h : slot.accepts t = true) :
    t.isData = slot.isData := by
  cases slot <;> cases t <;>
    first
      | rfl
      | simp [Slot.accepts, isAny, kind?, isNull] at h

/-- Do the fields with children in a layout stand in document order? -/
def isOrdered (entry : String × Layout) : Bool :=
  (entry.2.map Prod.fst).Nodup &&
    match childFields.find? entry.1 with
    | some keys => keys == (entry.2.filter fun field => !field.2.isData).map Prod.fst
    | none => true

theorem schema_isOrdered : ∀ entry ∈ schema, isOrdered entry = true := by
  decide +kernel

theorem keys_of_fits {layout : Layout} {fields : List (String × Tree)}
    (h : fits layout fields = true) : fields.map Prod.fst = layout.map Prod.fst ∧
      (fields.filter fun field => !field.2.isData).map Prod.fst =
        (layout.filter fun field => !field.2.isData).map Prod.fst := by
  induction layout generalizing fields with
  | nil => rw [fits_nil.1 h]; exact ⟨rfl, rfl⟩
  | cons entry layout ih =>
      obtain ⟨value, rest, rfl, hvalue, hrest⟩ := fits_cons.1 h
      obtain ⟨hkeys, hchildren⟩ := ih hrest
      refine ⟨by simp [hkeys], ?_⟩
      rw [List.filter_cons, List.filter_cons, isData_of_accepts hvalue]
      cases entry.2.isData with
      | true => simpa using hchildren
      | false => simpa using hchildren

theorem lookup_of_mem {κ α : Type} [BEq κ] [LawfulBEq κ] {entries : List (κ × α)}
    (hnodup : (entries.map Prod.fst).Nodup) {entry : κ × α} (h : entry ∈ entries) :
    entries.lookup entry.1 = some entry.2 := by
  induction entries with
  | nil => exact absurd h List.not_mem_nil
  | cons head rest ih =>
      obtain ⟨key, value⟩ := head
      obtain ⟨hhead, hrest⟩ := List.nodup_cons.1 hnodup
      rcases List.mem_cons.1 h with rfl | hmem
      · rw [List.lookup_cons, beq_self_eq_true]
      · have hne : (entry.1 == key) = false := by
          rw [beq_eq_false_iff_ne]
          intro heq
          exact hhead (List.mem_map.2 ⟨entry, hmem, heq⟩)
        rw [List.lookup_cons, hne]
        exact ih hrest hmem

theorem filterMap_lookup {α : Type} {entries sub : List (String × α)}
    (hnodup : (entries.map Prod.fst).Nodup) (hsub : ∀ e ∈ sub, e ∈ entries) :
    (sub.map Prod.fst).filterMap (fun key => entries.lookup key) = sub.map Prod.snd := by
  induction sub with
  | nil => rfl
  | cons entry sub ih =>
      rw [List.map_cons, List.filterMap_cons, lookup_of_mem hnodup (hsub entry (by simp)),
        ih fun e he => hsub e (List.mem_cons_of_mem _ he), List.map_cons]

/-- Is the field of a node of this kind entered?  Only those of unknown kinds are
entered when they hold plain data. -/
def isEntered (kind : String) (field : String × Tree) : Bool :=
  (childFields.find? kind).isNone || !field.2.isData

/-- On a formed node, document order is the order of the fields, less those that hold
plain data. -/
theorem inDocumentOrder_eq {α : Type} {kind : String} {fields : List (String × Tree)}
    (h : isLaidOut kind fields = true) (value : String × Tree → α) :
    inDocumentOrder kind (fields.map fun field => (field.1, value field)) =
      (fields.filter (isEntered kind)).map value := by
  obtain ⟨layout, hmem, hfits⟩ := isLaidOut_iff.1 h
  obtain ⟨hkeys, hchildren⟩ := keys_of_fits hfits
  have hordered := schema_isOrdered _ hmem
  rw [isOrdered, Bool.and_eq_true, decide_eq_true_eq] at hordered
  obtain ⟨hnodup, htable⟩ := hordered
  rw [inDocumentOrder]
  cases hfind : childFields.find? kind with
  | none =>
      have hall : fields.filter (isEntered kind) = fields := by
        simp [isEntered, hfind]
      rw [hall]
      simp
  | some keys =>
      rw [hfind] at htable
      have hkept : fields.filter (isEntered kind) = fields.filter fun field => !field.2.isData :=
        List.filter_congr fun field _ => by simp [isEntered, hfind]
      have hsub : ∀ e ∈ (fields.filter (isEntered kind)).map (fun field => (field.1, value field)),
          e ∈ fields.map fun field => (field.1, value field) := by
        intro e he
        obtain ⟨field, hfield, rfl⟩ := List.mem_map.1 he
        exact List.mem_map_of_mem (List.mem_of_mem_filter hfield)
      have hvalues := filterMap_lookup (by simpa [Function.comp_def, hkeys] using hnodup) hsub
      rw [beq_iff_eq.1 htable, ← hchildren, ← hkept]
      simpa [Function.comp_def] using hvalues

/-- The parts of a formed node in document order are those of its fields in order, when
plain data has no parts. -/
theorem flatten_inDocumentOrder {α : Type} {kind : String} {fields : List (String × Tree)}
    (h : isLaidOut kind fields = true) (parts : String × Tree → List α)
    (hdata : ∀ field ∈ fields, field.2.isData = true → parts field = []) :
    (inDocumentOrder kind (fields.map fun field => (field.1, parts field))).flatten =
      fields.flatMap parts := by
  rw [inDocumentOrder_eq h]
  clear h
  induction fields with
  | nil => rfl
  | cons field rest ih =>
      have hrest := ih fun f hf => hdata f (List.mem_cons_of_mem _ hf)
      rw [List.filter_cons, List.flatMap_cons, ← hrest]
      cases hentered : isEntered kind field with
      | true => rfl
      | false =>
          have hisData : field.2.isData = true := by
            simp only [isEntered, Bool.or_eq_false_iff] at hentered
            simpa using hentered.2
          rw [hdata field (by simp) hisData]
          rfl

end NameRecovery.Tree
