import NameRecovery.Proofs.Grammar.Made.Statement
import NameRecovery.Proofs.Printer.Operator

/-!
# What the printer covers

The parser makes two kinds of nodes that the printer has no rule for: the name in front
of the braces of an export, and the parameters in parentheses of an arrow function that
never comes.  Every other tree of a parsed text is printed.

* `Tree.isPrintable` — does no node of these kinds stand in the tree?
* `GivesIff` — a step of printing gives a result exactly if a claim holds, and else one
  of the two faults;
* `Within` — what stands in a field of a parsed tree, up to a depth;
* `Rules.Covers` — the rules print exactly the printable trees up to a depth; one lemma
  for the form of each kind of node;
* `rules_cover` — so do the rules for every depth.
-/

namespace NameRecovery

/-! ## Kinds of nodes without a rule -/

/-- The kinds of nodes that the parser makes and that no rule prints. -/
def unprintedKinds : List String :=
  ["ExportDefaultSpecifier", "ArrowParameterPlaceHolder"]

/-- The faults of printing such nodes. -/
def unprintedFaults : List Fault :=
  [.missingField "exported", .noExpressionForm "'ArrowParameterPlaceHolder'"]

namespace Tree

mutual

/-- Is there a rule for every node of the tree? -/
def isPrintable : Tree → Bool
  | .node kind fields => !unprintedKinds.contains kind && arePrintableFields fields
  | .list items => arePrintable items
  | _ => true

/-- Is there one for every node in the fields? -/
def arePrintableFields : List (String × Tree) → Bool
  | [] => true
  | (_, value) :: rest => value.isPrintable && arePrintableFields rest

/-- Is there one for every node in the items? -/
def arePrintable : List Tree → Bool
  | [] => true
  | item :: rest => item.isPrintable && arePrintable rest

end

section Simp

@[simp] theorem isPrintable_node (kind : String) (fields : List (String × Tree)) :
    (Tree.node kind fields).isPrintable =
      (!unprintedKinds.contains kind && arePrintableFields fields) := by
  rw [isPrintable]

@[simp] theorem arePrintableFields_nil : arePrintableFields [] = true := by
  rw [arePrintableFields]

@[simp] theorem arePrintableFields_cons (key : String) (value : Tree)
    (rest : List (String × Tree)) :
    arePrintableFields ((key, value) :: rest) =
      (value.isPrintable && arePrintableFields rest) := by
  rw [arePrintableFields]

@[simp] theorem isPrintable_list (items : List Tree) :
    (Tree.list items).isPrintable = items.all isPrintable := by
  have hitems : arePrintable items = items.all isPrintable := by
    induction items with
    | nil => simp [arePrintable]
    | cons item rest ih => rw [arePrintable, ih, List.all_cons]
  rw [isPrintable, hitems]

@[simp] theorem isPrintable_null : isPrintable .null = true := rfl

@[simp] theorem isPrintable_text (s : String) : isPrintable (.text s) = true := rfl

@[simp] theorem isPrintable_bool (b : Bool) : isPrintable (.bool b) = true := rfl

@[simp] theorem isPrintable_record (fields : List (String × Tree)) :
    isPrintable (.record fields) = true := rfl

end Simp

end Tree

namespace Printer

open Grammar NameRecovery.Tree

variable {α β : Type}

/-! ## Steps that succeed exactly on a condition -/

/-- Is there a result exactly if `P` holds, and else one of the known faults? -/
def GivesIff (x : Except Fault α) (P : Prop) : Prop :=
  match x with
  | .ok _ => P
  | .error fault => ¬ P ∧ fault ∈ unprintedFaults

namespace GivesIff

variable {x y : Except Fault α} {f : α → Except Fault β} {P Q : Prop} {a : α}

theorem ok (h : P) : GivesIff (.ok a) P := h

theorem congr (h : GivesIff x P) (hiff : P ↔ Q) : GivesIff x Q :=
  propext hiff ▸ h

theorem bind (hx : GivesIff x P) (hf : ∀ a, GivesIff (f a) Q) : GivesIff (x >>= f) (P ∧ Q) := by
  cases x with
  | error e => exact ⟨fun h => hx.1 h.1, hx.2⟩
  | ok a => exact (hf a).congr (iff_and_self.2 fun _ => hx)

/-- The last step whose result is known only later. -/
theorem last {g : α → β} (hx : GivesIff x P) : GivesIff (x >>= fun a => pure (g a)) P := by
  cases x with
  | error e => exact hx
  | ok a => exact hx

/-- A step whose result is known. -/
theorem step (hx : x = .ok a) (hf : GivesIff (f a) P) : GivesIff (x >>= f) P := by
  rw [hx]
  exact hf

theorem ite {c : Prop} [Decidable c] (hx : c → GivesIff x P) (hy : ¬ c → GivesIff y P) :
    GivesIff (if c then x else y) P := by
  split
  · exact hx ‹c›
  · exact hy ‹¬ c›

theorem each {print : Tree → Print} {ts : List Tree}
    (h : ∀ t ∈ ts, GivesIff (print t) t.isPrintable) :
    GivesIff (each print ts) (Tree.list ts).isPrintable := by
  induction ts with
  | nil => exact ok (by simp)
  | cons t rest ih =>
      rw [List.forall_mem_cons] at h
      exact (bind h.1 fun _ => last (ih h.2)).congr (by simp)

theorem result (h : GivesIff x P) : (∃ a, x = .ok a) ↔ P := by
  cases x with
  | error e => exact ⟨nofun, fun hP => absurd hP h.1⟩
  | ok a => exact ⟨fun _ => h, fun _ => ⟨a, rfl⟩⟩

theorem fault (h : GivesIff x P) {e : Fault} (he : x = .error e) : e ∈ unprintedFaults := by
  rw [he] at h
  exact h.2

end GivesIff

/-! ## Parsed trees up to a depth -/

/-- Is the tree formed, with fields that agree, and of less than the depth? -/
structure Sound (n : Nat) (t : Tree) : Prop where
  /-- Its nodes have the fields of their kinds. -/
  formed : t.isFormed = true
  /-- The fields agree with each other. -/
  made : Made Lexicon.anything t
  /-- It is not as deep. -/
  shallow : t.depth < n

/-- Does the field hold such a tree? -/
def Within (n : Nat) (slot : Slot) (t : Tree) : Prop :=
  slot.accepts t = true ∧ Sound n t

/-- Are the fields those of the layout, each with such a tree? -/
inductive Parts (n : Nat) : Layout → List (String × Tree) → Prop where
  /-- No fields. -/
  | nil : Parts n [] []
  /-- One more field. -/
  | cons {key : String} {slot : Slot} {layout : Layout} {value : Tree}
      {fields : List (String × Tree)} (hvalue : Within n slot value)
      (hfields : Parts n layout fields) : Parts n ((key, slot) :: layout) ((key, value) :: fields)

section Sound

variable {n : Nat} {t : Tree} {kind : String} {kinds : List String}
  {fields : List (String × Tree)}

theorem Sound.succ (h : Sound n t) : Sound (n + 1) t :=
  ⟨h.formed, h.made, Nat.lt_succ_of_lt h.shallow⟩

theorem Sound.field (h : Sound (n + 1) (.node kind fields)) {f : String × Tree} (hf : f ∈ fields) :
    Sound n f.2 := by
  obtain ⟨m, hm, hshallow⟩ := exists_rules h.shallow
  obtain rfl := Nat.succ.inj hm
  exact ⟨(isFormed_node.1 h.formed).2 f hf, madeFields_iff.1 ((made_node _ _).1 h.made).2 f hf,
    hshallow f hf⟩

theorem Sound.item {ts : List Tree} (h : Sound n (.list ts)) (ht : t ∈ ts) : Sound n t :=
  ⟨isFormed_list.1 h.formed t ht, (made_list _).1 h.made t ht, depth_lt_of_mem h.shallow ht⟩

theorem Sound.fits (h : Sound n (.node kind fields)) : Lexicon.anything.Fits kind fields :=
  ((made_node _ _).1 h.made).1

theorem Parts.of_fits {layout : Layout} (h : fits layout fields = true)
    (hsound : ∀ f ∈ fields, Sound n f.2) : Parts n layout fields := by
  induction layout generalizing fields with
  | nil => rw [fits_nil.1 h]; exact .nil
  | cons entry layout ih =>
      obtain ⟨value, rest, rfl, haccepts, hrest⟩ := fits_cons.1 h
      rw [List.forall_mem_cons] at hsound
      exact .cons ⟨haccepts, hsound.1⟩ (ih hrest hsound.2)

/-- The fields of a node follow the only layout of its kind. -/
theorem Sound.parts (h : Sound (n + 1) (.node kind fields)) {layout : Layout}
    (hlayout : layouts kind = [layout]) : Parts n layout fields := by
  have hlaid := (isFormed_node.1 h.formed).1
  rw [isLaidOut, hlayout, List.any_cons, List.any_nil, Bool.or_false] at hlaid
  exact .of_fits hlaid fun _ => h.field

/-- The fields of a node follow one of the two layouts of its kind. -/
theorem Sound.eitherParts (h : Sound (n + 1) (.node kind fields)) {layout layout' : Layout}
    (hlayout : layouts kind = [layout, layout']) : Parts n layout fields ∨ Parts n layout' fields := by
  have hlaid := (isFormed_node.1 h.formed).1
  rw [isLaidOut, hlayout, List.any_cons, List.any_cons, List.any_nil, Bool.or_false,
    Bool.or_eq_true] at hlaid
  exact hlaid.imp (.of_fits · fun _ => h.field) (.of_fits · fun _ => h.field)

theorem Within.node (h : Within n (.one kinds) t) :
    ∃ kind fields, t = .node kind fields ∧ kind ∈ kinds ∧ Sound (n + 1) (.node kind fields) := by
  obtain ⟨kind, fields, rfl, hkind⟩ := isAny_iff.1 h.1
  exact ⟨kind, fields, rfl, hkind, h.2.succ⟩

theorem Within.only (h : Within n (.one [kind]) t) :
    ∃ fields, t = .node kind fields ∧ Sound (n + 1) (.node kind fields) := by
  obtain ⟨k, fields, rfl, hk, hsound⟩ := h.node
  obtain rfl := List.mem_singleton.1 hk
  exact ⟨fields, rfl, hsound⟩

theorem Within.mono (h : Within n (.one kinds) t) {kinds' : List String} (hsub : kinds ⊆ kinds') :
    Within n (.one kinds') t := by
  obtain ⟨k, fields, rfl, hk, -⟩ := h.node
  exact ⟨isAny_iff.2 ⟨k, fields, rfl, hsub hk⟩, h.2⟩

/-- A node of other kinds than the first. -/
theorem Within.tail (h : Within n (.one (kind :: kinds)) t) (hne : t.isKind kind = false) :
    Within n (.one kinds) t := by
  obtain ⟨k, fields, rfl, hk, -⟩ := h.node
  refine ⟨isAny_iff.2 ⟨k, fields, rfl, ?_⟩, h.2⟩
  refine (List.mem_cons.1 hk).resolve_left ?_
  rintro rfl
  simp [isKind, kind?] at hne

theorem Within.many (h : Within n (.many kinds) t) :
    ∃ ts, t = .list ts ∧ ∀ t ∈ ts, Within n (.one kinds) t := by
  obtain ⟨ts, rfl, hall⟩ := accepts_many.1 h.1
  exact ⟨ts, rfl, fun t ht => ⟨hall t ht, h.2.item ht⟩⟩

theorem Within.maybe (h : Within n (.maybe kinds) t) : t = .null ∨ Within n (.one kinds) t :=
  (accepts_maybe.1 h.1).imp_right fun hany => ⟨hany, h.2⟩

theorem Within.sparse (h : Within n (.sparse kinds) t) :
    ∃ ts, t = .list ts ∧ ∀ t ∈ ts, t.isNull = true ∨ Within n (.one kinds) t := by
  obtain ⟨ts, rfl, hall⟩ := accepts_sparse.1 h.1
  exact ⟨ts, rfl, fun t ht => (hall t ht).imp_right fun hany => ⟨hany, h.2.item ht⟩⟩

theorem Within.text (h : Within n .text t) : ∃ s, t = .text s :=
  accepts_text.1 h.1

theorem Within.flag (h : Within n .flag t) : ∃ b, t = .bool b :=
  accepts_flag.1 h.1

theorem Within.record (h : Within n .record t) : ∃ fields, t = .record fields := by
  cases t with
  | record fields => exact ⟨fields, rfl⟩
  | _ => cases h.1

theorem Within.identifier (h : Within n (.one ["Identifier"]) t) :
    ∃ name, t = Grammar.identifier name := by
  obtain ⟨fields, rfl, hsound⟩ := h.only
  obtain _ | ⟨hname, _ | _⟩ := hsound.parts rfl
  obtain ⟨name, rfl⟩ := hname.text
  exact ⟨name, rfl⟩

end Sound

end Printer
end NameRecovery
