import NameRecovery.Proofs.Tree.Branch

/-!
# Nodes built of formed parts

A node is formed when its fields are those of its kind and hold formed values.

* `Slot.Holds` — the field may hold the value, and the value is formed;
* `Filled` — the fields follow a layout;
* `isA_node` — a node with such fields is formed, and of its kind.
-/

namespace NameRecovery.Tree

/-- Does a field of this sort hold the value, which is formed? -/
def Slot.Holds (slot : Slot) (t : Tree) : Prop :=
  slot.accepts t = true ∧ t.isFormed = true

/-- Are the fields those of the layout, each with a value it may hold? -/
inductive Filled : Layout → List (String × Tree) → Prop where
  /-- No fields. -/
  | nil : Filled [] []
  /-- One more field. -/
  | cons {key : String} {slot : Slot} {layout : Layout} {value : Tree}
      {fields : List (String × Tree)} (hvalue : slot.Holds value)
      (hfields : Filled layout fields) : Filled ((key, slot) :: layout) ((key, value) :: fields)

theorem Filled.fits {layout : Layout} {fields : List (String × Tree)} (h : Filled layout fields) :
    fits layout fields = true := by
  induction h with
  | nil => rfl
  | cons hvalue _ ih => exact fits_cons.2 ⟨_, _, rfl, hvalue.1, ih⟩

theorem Filled.isFormed {layout : Layout} {fields : List (String × Tree)}
    (h : Filled layout fields) : ∀ f ∈ fields, f.2.isFormed = true := by
  induction h with
  | nil => exact fun f hf => absurd hf List.not_mem_nil
  | cons hvalue _ ih =>
      intro f hf
      rcases List.mem_cons.1 hf with rfl | hf
      · exact hvalue.2
      · exact ih f hf

/-- A node whose fields follow a layout of its kind is formed. -/
theorem isA_node {kinds : List String} {kind : String} {fields : List (String × Tree)}
    {layout : Layout} (hkind : kind ∈ kinds ∧ (kind, layout) ∈ schema)
    (hfields : Filled layout fields) : IsA kinds (.node kind fields) := by
  refine ⟨isAny_iff.2 ⟨kind, fields, rfl, hkind.1⟩, isFormed_node.2 ⟨?_, hfields.isFormed⟩⟩
  exact isLaidOut_iff.2 ⟨layout, hkind.2, hfields.fits⟩

theorem filled_of_fits {layout : Layout} {fields : List (String × Tree)}
    (h : fits layout fields = true) (hformed : ∀ f ∈ fields, f.2.isFormed = true) :
    Filled layout fields := by
  induction layout generalizing fields with
  | nil => rw [fits_nil.1 h]; exact .nil
  | cons entry layout ih =>
      obtain ⟨value, rest, rfl, haccepts, hrest⟩ := fits_cons.1 h
      exact .cons ⟨haccepts, hformed _ List.mem_cons_self⟩
        (ih hrest fun f hf => hformed f (List.mem_cons_of_mem _ hf))

/-- The fields of a formed node follow the layout of its kind. -/
theorem filled_of_isFormed {kind : String} {fields : List (String × Tree)} {layout : Layout}
    (h : (Tree.node kind fields).isFormed = true) (hlayout : layouts kind = [layout]) :
    Filled layout fields := by
  obtain ⟨hlaid, hformed⟩ := isFormed_node.1 h
  rw [isLaidOut, hlayout, List.any_cons, List.any_nil, Bool.or_false] at hlaid
  exact filled_of_fits hlaid hformed

/-! ## What fields hold -/

theorem holds_text (s : String) : Slot.text.Holds (.text s) := ⟨rfl, rfl⟩

theorem holds_flag (b : Bool) : Slot.flag.Holds (.bool b) := ⟨rfl, rfl⟩

theorem holds_record (fields : List (String × Tree)) : Slot.record.Holds (.record fields) :=
  ⟨rfl, rfl⟩

theorem holds_null (kinds : List String) : (Slot.maybe kinds).Holds .null := ⟨rfl, rfl⟩

theorem IsA.one {kinds : List String} {t : Tree} (h : IsA kinds t) : (Slot.one kinds).Holds t := h

theorem Slot.Holds.isA {kinds : List String} {t : Tree} (h : (Slot.one kinds).Holds t) :
    IsA kinds t := h

theorem IsA.maybe {kinds : List String} {t : Tree} (h : IsA kinds t) :
    (Slot.maybe kinds).Holds t :=
  ⟨accepts_maybe.2 (.inr h.1), h.2⟩

theorem holds_many_iff {kinds : List String} {ts : List Tree} :
    (Slot.many kinds).Holds (.list ts) ↔ ∀ t ∈ ts, IsA kinds t := by
  constructor
  · rintro ⟨haccepts, hformed⟩ t ht
    obtain ⟨items, heq, hany⟩ := accepts_many.1 haccepts
    rw [Tree.list.inj heq] at ht hformed
    exact ⟨hany t ht, isFormed_list.1 hformed t ht⟩
  · intro h
    exact ⟨accepts_many.2 ⟨ts, rfl, fun t ht => (h t ht).1⟩,
      isFormed_list.2 fun t ht => (h t ht).2⟩

/-- An element of a list with holes, or an optional node. -/
def IsElement (kinds : List String) (t : Tree) : Prop :=
  t = .null ∨ IsA kinds t

theorem holds_sparse_iff {kinds : List String} {ts : List Tree} :
    (Slot.sparse kinds).Holds (.list ts) ↔ ∀ t ∈ ts, IsElement kinds t := by
  constructor
  · rintro ⟨haccepts, hformed⟩ t ht
    obtain ⟨items, heq, hany⟩ := accepts_sparse.1 haccepts
    rw [Tree.list.inj heq] at ht hformed
    rcases hany t ht with hnull | hany
    · left
      cases t with
      | null => rfl
      | _ => cases hnull
    · exact .inr ⟨hany, isFormed_list.1 hformed t ht⟩
  · intro h
    refine ⟨accepts_sparse.2 ⟨ts, rfl, fun t ht => ?_⟩, isFormed_list.2 fun t ht => ?_⟩
    · exact (h t ht).imp (fun hnull => by rw [hnull]; rfl) And.left
    · rcases h t ht with rfl | hany
      · rfl
      · exact hany.2

theorem holds_maybe_iff {kinds : List String} {t : Tree} :
    (Slot.maybe kinds).Holds t ↔ IsElement kinds t := by
  constructor
  · rintro ⟨haccepts, hformed⟩
    exact (accepts_maybe.1 haccepts).imp_right fun hany => ⟨hany, hformed⟩
  · rintro (rfl | h)
    · exact holds_null kinds
    · exact h.maybe

theorem IsA.isNode {kinds : List String} {t : Tree} (h : IsA kinds t) : t.isNode = true := by
  obtain ⟨kind, fields, rfl, -⟩ := isAny_iff.1 h.1
  rfl

theorem IsA.mono {kinds kinds' : List String} {t : Tree} (h : IsA kinds t)
    (hsub : kinds ⊆ kinds') : IsA kinds' t := by
  obtain ⟨kind, fields, rfl, hkind⟩ := isAny_iff.1 h.1
  exact ⟨isAny_iff.2 ⟨kind, fields, rfl, hsub hkind⟩, h.2⟩

/-- A formed node of a kind is one. -/
theorem isA_of_isKind {kinds : List String} {t : Tree} {kind : String} (h : IsA kinds t)
    (hkind : t.isKind kind = true) : IsA [kind] t := by
  obtain ⟨k, fields, rfl, -⟩ := isAny_iff.1 h.1
  obtain rfl : k = kind := by simpa [isKind, kind?] using hkind
  exact ⟨isAny_iff.2 ⟨k, fields, rfl, List.mem_singleton_self k⟩, h.2⟩

/-- A field of a formed node holds what its kind demands. -/
theorem IsA.get_holds {kind : String} {t : Tree} (h : IsA [kind] t) (key : String) (slot : Slot)
    (hkey : key ≠ "type")
    (hslot : (layouts kind).map (fun layout => layout.lookup key) = [some slot]) :
    slot.Holds (t.get key) := by
  obtain ⟨k, fields, rfl, hk⟩ := isAny_iff.1 h.1
  obtain rfl := List.mem_singleton.1 hk
  obtain ⟨value, hlookup, haccepts, hformed⟩ := lookup_of_isFormed h.2 key slot hslot
  have hget : (Tree.node k fields).get key = value := by
    rw [Tree.get, get?, if_neg hkey, hlookup]
    rfl
  rw [hget]
  exact ⟨haccepts, hformed⟩

end NameRecovery.Tree
