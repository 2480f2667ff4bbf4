import NameRecovery.Proofs.Grammar.Front
import NameRecovery.Proofs.Grammar.Lexicon
import NameRecovery.Proofs.Tree.Respell

/-!
# Names at the start of a program

A program may be printed with a name first: that of the label or of the leftmost operand of
its first statement.  Parentheses and minus signs may stand before it.

* `Tree.opening?` — the name a tree is printed with first, if it is printed with one;
* `Tree.isPlainlyOpened` — that name, if there is one, starts with no escape;
* `isPlainlyOpened_respell` — spelling names anew keeps this if it keeps how names start;
* `made_respell` — so are the texts a tree is made of.
-/

namespace NameRecovery

open Source Grammar

namespace Tree

/-! ## The name a tree is printed with first -/

/-- The text in the field for the name. -/
def name? (t : Tree) : Option String :=
  (t.get "name").text?

/-- The field a node of the given kind is printed with first, where it is printed with
another expression or statement first. -/
def leadingField? (kind : String) (t : Tree) : Option String :=
  match kind with
  | "Program" => some "body"
  | "ExpressionStatement" => some "expression"
  | "MemberExpression" => some "object"
  | "CallExpression" => some "callee"
  | "TaggedTemplateExpression" => some "tag"
  | "BinaryExpression" | "LogicalExpression" | "AssignmentExpression" | "AssignmentPattern" =>
    some "left"
  | "ConditionalExpression" => some "test"
  | "SequenceExpression" => some "expressions"
  | "UnaryExpression" => if (t.get "operator").text? = some "-" then some "argument" else none
  | "UpdateExpression" =>
    if t.has "prefix" && (t.get "operator").text? != some "--" then none else some "argument"
  | "ArrowFunctionExpression" | "ArrowParameterPlaceHolder" =>
    if t.has "async" then none else some "params"
  | _ => none

/-- The field with the name a node of the given kind is printed with first, where it is
printed with a name of its own first. -/
def labelField? (kind : String) : Option String :=
  match kind with
  | "LabeledStatement" => some "label"
  | "MetaProperty" => some "meta"
  | _ => none

mutual

/-- The name a tree is printed with first, behind parentheses and minus signs.  Values
without a kind are not printed; the empty name, which starts with nothing, stands for
theirs. -/
def opening? : Tree → Option String
  | .node kind fields =>
    if kind = "Identifier" then (Tree.node kind fields).name?
    else
      match labelField? kind with
      | some key => ((Tree.node kind fields).get key).name?
      | none =>
        match leadingField? kind (.node kind fields) with
        | some key => openingIn key fields
        | none => none
  | .list items => openingFirst items
  | .record _ => some ""
  | _ => none

/-- The name a field is printed with first. -/
def openingIn (key : String) : List (String × Tree) → Option String
  | [] => none
  | (k, value) :: rest => if k = key then value.opening? else openingIn key rest

/-- The name the first of several trees is printed with first; holes are left out. -/
def openingFirst : List Tree → Option String
  | [] => none
  | t :: rest => if t.isNull then openingFirst rest else t.opening?

end

/-- Does the name the tree is printed with first, if there is one, start plainly? -/
def isPlainlyOpened (t : Tree) : Bool :=
  t.opening?.all isPlainStart

/-- Behind a minus sign stands a name; an addition starts with its first operand. -/
example : (Tree.node "BinaryExpression" [("operator", .text "+"),
    ("left", .node "UnaryExpression" [("operator", .text "-"),
      ("argument", .node "Identifier" [("name", .text "a")])]),
    ("right", .node "Identifier" [("name", .text "b")])]).opening? = some "a" := by
  decide

variable {kind : String} {fields : List (String × Tree)}

theorem openingIn_eq (key : String) (fields : List (String × Tree)) :
    openingIn key fields = ((fields.lookup key).getD .null).opening? := by
  induction fields with
  | nil => simp [openingIn, opening?]
  | cons field rest ih =>
      obtain ⟨k, value⟩ := field
      rw [openingIn, List.lookup_cons]
      by_cases hk : k = key
      · simp [hk]
      · rw [if_neg hk, beq_eq_false_iff_ne.2 (Ne.symm hk), ih]

theorem labelField?_ne {key : String} (h : labelField? kind = some key) :
    kind ≠ "Identifier" ∧ key ≠ "type" := by
  unfold labelField? at h
  grind

theorem leadingField?_ne {key : String} {t : Tree} (h : leadingField? kind t = some key) :
    kind ≠ "Identifier" ∧ labelField? kind = none ∧ key ≠ "type" := by
  unfold leadingField? at h
  unfold labelField?
  grind

theorem opening?_identifier (fields : List (String × Tree)) :
    (Tree.node "Identifier" fields).opening? = (Tree.node "Identifier" fields).name? := by
  rw [opening?, if_pos rfl]

/-- Some nodes are printed with a name of their own first. -/
theorem opening?_label (key : String) (h : labelField? kind = some key) :
    (Tree.node kind fields).opening? = ((Tree.node kind fields).get key).name? := by
  rw [opening?, if_neg (labelField?_ne h).1, h]

/-- Others are printed with one of their fields first. -/
theorem opening?_leading (key : String) (h : leadingField? kind (.node kind fields) = some key) :
    (Tree.node kind fields).opening? = ((Tree.node kind fields).get key).opening? := by
  obtain ⟨hkind, hlabel, hkey⟩ := leadingField?_ne h
  rw [opening?, if_neg hkind, hlabel, h]
  simp [openingIn_eq, get, get?, hkey]

/-- And others with no name first. -/
theorem opening?_other (hkind : kind ≠ "Identifier") (hlabel : labelField? kind = none)
    (h : leadingField? kind (.node kind fields) = none) :
    (Tree.node kind fields).opening? = none := by
  rw [opening?, if_neg hkind, hlabel, h]

/-! ## Spelling names anew -/

section Respell

variable {spell : Spelling}

@[simp] theorem text?_respellIn (binding : Bool) (path : Path) (key : String) (t : Tree) :
    (respellIn spell binding path key t).text? = t.text? := by
  cases t with
  | node kind fields => rw [respellIn_of_ne_list (by simp), respellAt]; split <;> rfl
  | _ => rfl

theorem get_respellAt (hkind : kind ≠ "Identifier") (binding : Bool) (path : Path) {key : String}
    (hkey : key ≠ "type") :
    (respellAt spell binding path (.node kind fields)).get key =
      respellIn spell (names (.node kind fields) key) path key ((Tree.node kind fields).get key) := by
  rw [respellAt_node hkind]
  simp only [get, get?, if_neg hkey]
  rw [lookup_map_value fun key => respellIn spell (names (.node kind fields) key) path key]
  cases fields.lookup key <;> rfl

theorem leadingField?_respellAt (hkind : kind ≠ "Identifier") (binding : Bool) (path : Path) :
    leadingField? kind (respellAt spell binding path (.node kind fields)) =
      leadingField? kind (.node kind fields) := by
  unfold leadingField?
  simp only [has_respellAt hkind, get_respellAt hkind binding path (show "operator" ≠ "type" by decide),
    text?_respellIn]

variable (hspell : ∀ path name, isPlainStart name = true → isPlainStart (spell path name) = true)
include hspell

theorem name?_respellName {path : Path}
    (h : (Tree.node "Identifier" fields).name?.all isPlainStart = true) :
    (Tree.node "Identifier" (respellName (spell path) fields)).name?.all isPlainStart = true := by
  have hlookup : (respellName (spell path) fields).lookup "name" =
      (fields.lookup "name").map (mapText (spell path)) := by
    rw [respellName, lookup_map_value fun key value =>
      if key = "name" then mapText (spell path) value else value]
    rfl
  simp only [name?, get, get?, hlookup] at h ⊢
  cases hname : fields.lookup "name" with
  | none => rfl
  | some value =>
      rw [hname] at h
      cases value with
      | text name => exact hspell path name h
      | _ => rfl

theorem name?_respellIn {binding : Bool} {path : Path} {key : String} {t : Tree}
    (h : t.name?.all isPlainStart = true) :
    (respellIn spell binding path key t).name?.all isPlainStart = true := by
  cases t with
  | node kind fields =>
      rw [respellIn_of_ne_list (by simp)]
      by_cases hkind : kind = "Identifier"
      · subst hkind
        rw [respellAt, if_pos rfl]
        cases binding with
        | true => exact name?_respellName hspell h
        | false => exact h
      · rw [name?, get_respellAt hkind _ _ (by decide), text?_respellIn]
        exact h
  | _ => exact h

omit hspell in
theorem openingFirst_respell {binding : Bool} {path : Path} {key : String} {items : List Tree}
    (hitems : ∀ t ∈ items, ∀ binding path, t.isPlainlyOpened = true →
      (respellAt spell binding path t).isPlainlyOpened = true)
    (h : (openingFirst items).all isPlainStart = true) (start : Nat) :
    (openingFirst ((items.zipIdx start).map fun item =>
      respellAt spell binding (path ++ [⟨key, item.2⟩]) item.1)).all isPlainStart = true := by
  induction items generalizing start with
  | nil => rfl
  | cons t rest ih =>
      rw [List.zipIdx_cons, List.map_cons, openingFirst, isNull_respellAt]
      rw [openingFirst] at h
      by_cases hnull : t.isNull = true
      · rw [if_pos hnull] at h ⊢
        exact ih (fun t ht => hitems t (List.mem_cons_of_mem _ ht)) h (start + 1)
      · rw [if_neg hnull] at h ⊢
        exact hitems t List.mem_cons_self _ _ h

omit hspell in
theorem isPlainlyOpened_respellIn {binding : Bool} {path : Path} {key : String} {t : Tree}
    (ih : ∀ b ∈ placed key t, ∀ binding path, b.2.isPlainlyOpened = true →
      (respellAt spell binding path b.2).isPlainlyOpened = true)
    (h : t.isPlainlyOpened = true) :
    (respellIn spell binding path key t).isPlainlyOpened = true := by
  by_cases hlist : ∃ items, t = .list items
  · obtain ⟨items, rfl⟩ := hlist
    refine openingFirst_respell (fun t ht => ?_) h 0
    obtain ⟨b, hb, rfl⟩ := @exists_placed_of_mem key items t ht
    exact ih b hb
  · have hne : ∀ items, t ≠ .list items := fun items h => hlist ⟨items, h⟩
    rw [respellIn_of_ne_list hne]
    exact ih (⟨key, 0⟩, t) (by rw [placed_of_ne_list hne]; exact List.mem_singleton_self _) _ _ h

/-- The name a tree is printed with first still starts plainly. -/
theorem isPlainlyOpened_respellAt {t : Tree} (h : t.isPlainlyOpened = true) (binding : Bool)
    (path : Path) : (respellAt spell binding path t).isPlainlyOpened = true := by
  induction t using branch_induction generalizing binding path with
  | step t ih =>
    cases t with
    | node kind fields =>
      by_cases hkind : kind = "Identifier"
      · subst hkind
        rw [respellAt, if_pos rfl]
        cases binding with
        | true => simpa [isPlainlyOpened, opening?_identifier] using name?_respellName hspell h
        | false => exact h
      obtain ⟨fields', hfields'⟩ : ∃ fields', respellAt spell binding path (.node kind fields) =
          .node kind fields' := ⟨_, respellAt_node hkind ..⟩
      have hget := fun {key} => @get_respellAt kind fields spell hkind binding path key
      have hleading := @leadingField?_respellAt kind fields spell hkind binding path
      rw [hfields'] at hget hleading ⊢
      unfold isPlainlyOpened at h ⊢
      cases hlabel : labelField? kind with
      | some key =>
          rw [opening?_label key hlabel] at h ⊢
          rw [hget (labelField?_ne hlabel).2]
          exact name?_respellIn hspell h
      | none =>
          cases hfield : leadingField? kind (.node kind fields) with
          | none =>
              rw [opening?_other hkind hlabel (hleading.trans hfield)]
              rfl
          | some key =>
              obtain ⟨-, -, hkey⟩ := leadingField?_ne hfield
              rw [opening?_leading key (hleading.trans hfield), hget hkey]
              rw [opening?_leading key hfield] at h
              have hvalue : (Tree.node kind fields).get key = (fields.lookup key).getD .null := by
                simp [get, get?, hkey]
              rw [hvalue] at h ⊢
              cases hlookup : fields.lookup key with
              | none => rfl
              | some value =>
                  rw [hlookup] at h
                  refine isPlainlyOpened_respellIn (fun b hb binding path hopened => ?_) h
                  exact ih b (mem_branches_of_lookup kind hlookup hb) hopened binding path
    | _ => exact h

theorem isPlainlyOpened_respell {t : Tree} (h : t.isPlainlyOpened = true) :
    (t.respell spell).isPlainlyOpened = true :=
  isPlainlyOpened_respellAt hspell h true []

end Respell

end Tree

/-! ## The texts of a tree spelled anew -/

namespace Grammar

open NameRecovery.Tree

variable {L : Lexicon} {spell : Spelling}

theorem ofText_respellIn {P : String → Prop} {binding : Bool} {path : Path} {key : String}
    {value : Option Tree} (h : OfText P value) :
    OfText P (value.map (respellIn spell binding path key)) := by
  obtain ⟨s, rfl, hs⟩ := h
  exact ⟨s, rfl, hs⟩

theorem ofKind_respellIn {kind : String} {binding : Bool} {path : Path} {key : String}
    {value : Option Tree} (h : OfKind kind value) :
    OfKind kind (value.map (respellIn spell binding path key)) := by
  obtain ⟨t, rfl, ht⟩ := h
  obtain ⟨fields, rfl⟩ := eq_node_of_isKind ht
  refine ⟨_, rfl, ?_⟩
  rw [respellIn_of_ne_list (by simp), isKind, kind?_respellAt]
  exact ht

theorem Lexicon.Fits.respell {kind : String} {fields : List (String × Tree)}
    (h : L.Fits kind fields) (hkind : kind ≠ "Identifier") (binding : String → Bool) (path : Path) :
    L.Fits kind (fields.map fun field =>
      (field.1, respellIn spell (binding field.1) path field.1 field.2)) := by
  have hlookup : ∀ key, (fields.map fun field =>
      (field.1, respellIn spell (binding field.1) path field.1 field.2)).lookup key =
      (fields.lookup key).map (respellIn spell (binding key) path key) := fun key =>
    lookup_map_value (fun key => respellIn spell (binding key) path key) key fields
  unfold Lexicon.Fits at h ⊢
  split at h <;> simp only [hlookup]
  · exact absurd rfl hkind
  · exact ofText_respellIn h
  · obtain ⟨raw, hvalue, hraw⟩ := h
    exact ⟨raw, by rw [hvalue]; rfl, hraw⟩
  · obtain ⟨quasis, exprs, hquasis, hexprs, hlength⟩ := h
    refine ⟨_, _, by rw [hquasis]; rfl, by rw [hexprs]; rfl, ?_⟩
    simpa [List.length_map, List.length_zipIdx] using hlength
  · exact h.imp (fun hcomputed => by rw [hcomputed]; rfl) ofKind_respellIn
  · refine ⟨ofText_respellIn h.1, h.2.imp ?_ ofKind_respellIn⟩
    rintro ⟨hinit, hmethod⟩
    exact ⟨by rw [hinit]; rfl, by rw [hmethod]; rfl⟩
  · exact ofText_respellIn h
  · refine h.imp ?_ ?_
    · intro hnull
      rw [hnull]
      rfl
    · intro hempty
      rw [hempty]
      rfl
  all_goals exact ofText_respellIn h

theorem made_respellName (hname : ∀ path name, L.name name → L.name (spell path name))
    {path : Path} {fields : List (String × Tree)} (h : Made L (.node "Identifier" fields)) :
    Made L (.node "Identifier" (respellName (spell path) fields)) := by
  obtain ⟨⟨name, hlookup, hname'⟩, hfields⟩ := (made_node _ _).1 h
  refine (made_node _ _).2 ⟨⟨spell path name, ?_, hname path name hname'⟩, ?_⟩
  · rw [respellName, lookup_map_value fun key value =>
      if key = "name" then mapText (spell path) value else value, hlookup]
    rfl
  · rw [madeFields_iff] at hfields ⊢
    intro f hf
    obtain ⟨field, hfield, rfl⟩ := List.mem_map.1 hf
    have hvalue := hfields field hfield
    dsimp only
    split
    · cases hfield : field.2 with
      | text s => trivial
      | _ => rw [hfield] at hvalue; exact hvalue
    · exact hvalue

theorem made_respellIn {binding : Bool} {path : Path} {key : String} {t : Tree}
    (ih : ∀ b ∈ placed key t, ∀ binding path, Made L b.2 → Made L (respellAt spell binding path b.2))
    (h : Made L t) : Made L (respellIn spell binding path key t) := by
  by_cases hlist : ∃ items, t = .list items
  · obtain ⟨items, rfl⟩ := hlist
    refine (made_list _).2 fun t ht => ?_
    obtain ⟨item, hitem, rfl⟩ := List.mem_map.1 ht
    have hmem : item.1 ∈ items := List.fst_mem_of_mem_zipIdx hitem
    obtain ⟨b, hb, hbitem⟩ := @exists_placed_of_mem key items item.1 hmem
    rw [← hbitem]
    exact ih b hb _ _ (hbitem ▸ (made_list _).1 h item.1 hmem)
  · have hne : ∀ items, t ≠ .list items := fun items h => hlist ⟨items, h⟩
    rw [respellIn_of_ne_list hne]
    exact ih (⟨key, 0⟩, t) (by rw [placed_of_ne_list hne]; exact List.mem_singleton_self _) _ _ h

/-- A tree spelled anew is made of such texts, if the new names are such texts. -/
theorem made_respellAt (hname : ∀ path name, L.name name → L.name (spell path name)) {t : Tree}
    (h : Made L t) (binding : Bool) (path : Path) : Made L (respellAt spell binding path t) := by
  induction t using branch_induction generalizing binding path with
  | step t ih =>
    cases t with
    | node kind fields =>
      by_cases hkind : kind = "Identifier"
      · subst hkind
        rw [respellAt, if_pos rfl]
        cases binding with
        | true => exact made_respellName hname h
        | false => exact h
      obtain ⟨hfits, hfields⟩ := (made_node _ _).1 h
      rw [respellAt_node hkind]
      refine (made_node _ _).2 ⟨hfits.respell hkind _ path, ?_⟩
      rw [madeFields_iff] at hfields ⊢
      intro f hf
      obtain ⟨field, hfield, rfl⟩ := List.mem_map.1 hf
      refine made_respellIn (fun b hb binding path hmade => ?_) (hfields field hfield)
      exact ih b (List.mem_flatMap.2 ⟨field, hfield, hb⟩) hmade binding path
    | _ => exact h

theorem made_respell (hname : ∀ path name, L.name name → L.name (spell path name)) {t : Tree}
    (h : Made L t) : Made L (t.respell spell) :=
  made_respellAt hname h true []

end Grammar

end NameRecovery
