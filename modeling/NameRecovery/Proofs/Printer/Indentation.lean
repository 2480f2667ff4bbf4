import NameRecovery.Printer.Program
import NameRecovery.Proofs.Printer.Gives
import Mathlib.Data.List.Forall2

/-!
# The same tree with another indentation

A tree printed with two indentations gives the same text, or texts that both show their
indentation: nothing else depends on it.

* `Alike` — two texts that are equal, or show the one and the other indentation;
* `Twin` — two steps of printing whose results are related;
* `Rules.Twin` — the rules for two indentations print alike texts; one lemma for each
  form;
* `render_alike` — so are the texts of a tree.
-/

namespace NameRecovery.Printer

variable {α β : Type} {i j : String}

/-! ## Alike texts -/

/-- Are the texts equal, or do they show the one and the other indentation? -/
class Alike (i j a b : String) : Prop where
  /-- They are. -/
  alike : a = b ∨ i.toList <:+: a.toList ∧ j.toList <:+: b.toList

namespace Alike

variable {a b c d : String}

instance (priority := high) refl : Alike i j a a := ⟨.inl rfl⟩

theorem of_shown (ha : i.toList <:+: a.toList) (hb : j.toList <:+: b.toList) : Alike i j a b :=
  ⟨.inr ⟨ha, hb⟩⟩

instance append [h : Alike i j a b] [h' : Alike i j c d] : Alike i j (a ++ c) (b ++ d) := by
  rcases h.alike with rfl | ⟨ha, hb⟩
  · rcases h'.alike with rfl | ⟨hc, hd⟩
    · exact refl
    · refine of_shown ?_ ?_
      · rw [String.toList_append]
        exact hc.trans (List.suffix_append _ _).isInfix
      · rw [String.toList_append]
        exact hd.trans (List.suffix_append _ _).isInfix
  · refine of_shown ?_ ?_
    · rw [String.toList_append]
      exact ha.trans (List.prefix_append _ _).isInfix
    · rw [String.toList_append]
      exact hb.trans (List.prefix_append _ _).isInfix

/-- Alike texts stay so in a frame, even one that depends on the text. -/
theorem frame [h : Alike i j a b] (f : String → String)
    (hf : ∀ s : String, s.toList <:+: (f s).toList) : Alike i j (f a) (f b) := by
  rcases h.alike with rfl | ⟨ha, hb⟩
  · exact refl
  · exact of_shown (ha.trans (hf a)) (hb.trans (hf b))

instance inParens [Alike i j a b] : Alike i j (inParens a) (inParens b) := by
  unfold Printer.inParens
  infer_instance

theorem infix_inParens (s : String) : s.toList <:+: (Printer.inParens s).toList :=
  ⟨['('], [')'], by simp [Printer.inParens]⟩

/-- Alike texts stay so when parentheses depend on the text. -/
theorem guarded [Alike i j a b] (p : String → Prop) [DecidablePred p] :
    Alike i j (if p a then Printer.inParens a else a) (if p b then Printer.inParens b else b) := by
  refine frame (fun s => if p s then Printer.inParens s else s) fun s => ?_
  split
  · exact infix_inParens s
  · exact List.infix_refl _

instance pad (level : Nat) : Alike i j (pad i level) (pad j level) := by
  cases level with
  | zero => exact refl
  | succ level =>
      refine of_shown ?_ ?_
      all_goals
        simp only [Printer.pad, List.replicate_succ, String.join_cons, String.toList_append]
        exact (List.prefix_append _ _).isInfix

/-- Lists of alike texts. -/
abbrev All (i j : String) : List String → List String → Prop :=
  List.Forall₂ (Alike i j)

theorem intercalate (separator : String) {as bs : List String} (h : All i j as bs) :
    Alike i j (String.intercalate separator as) (String.intercalate separator bs) := by
  induction h with
  | nil => exact refl
  | cons hfirst hrest ih =>
      cases hrest with
      | nil =>
          rw [String.intercalate_singleton, String.intercalate_singleton]
          exact hfirst
      | cons =>
          rw [String.intercalate_cons_cons, String.intercalate_cons_cons]
          infer_instance

theorem All.map_append {as bs : List String} (h : All i j as bs) [Alike i j a b] :
    All i j (as.map (a ++ ·)) (bs.map (b ++ ·)) := by
  induction h with
  | nil => exact .nil
  | cons hfirst _ ih => exact .cons inferInstance ih

end Alike

/-! ## Twin steps -/

/-- Are the results of the two steps related, where both have one? -/
def Twin (R : α → β → Prop) (x : Except Fault α) (y : Except Fault β) : Prop :=
  ∀ a b, x = .ok a → y = .ok b → R a b

namespace Twin

variable {γ δ : Type} {x : Except Fault α} {y : Except Fault β} {f : α → Except Fault γ}
  {g : β → Except Fault δ} {R : α → β → Prop} {S : γ → δ → Prop}

theorem pure {a : α} {b : β} (h : R a b) : Twin R (pure a) (pure b) := by
  intro a' b' ha hb
  cases ha
  cases hb
  exact h

theorem bind (hx : Twin R x y) (hf : ∀ a b, R a b → Twin S (f a) (g b)) :
    Twin S (x >>= f) (y >>= g) := by
  intro c d hc hd
  cases x with
  | error e => cases hc
  | ok a =>
      cases y with
      | error e => cases hd
      | ok b => exact hf a b (hx a b rfl rfl) c d hc hd

/-- A step that both take. -/
theorem same {x : Except Fault α} {f : α → Except Fault γ} {g : α → Except Fault δ}
    (hf : ∀ a, Twin S (f a) (g a)) : Twin S (x >>= f) (x >>= g) := by
  refine bind (R := Eq) (fun a b ha hb => ?_) ?_
  · rw [ha] at hb
    exact Except.ok.inj hb
  · rintro a b rfl
    exact hf a

theorem ite {c : Prop} [Decidable c] {x x' : Except Fault α} {y y' : Except Fault β}
    (hx : c → Twin R x y) (hy : ¬ c → Twin R x' y') :
    Twin R (if c then x else x') (if c then y else y') := by
  split
  · exact hx ‹c›
  · exact hy ‹¬ c›

/-- The same step has alike texts. -/
theorem refl {x : Print} : Twin (Alike i j) x x :=
  fun _ _ ha hb => Except.ok.inj (ha.symm.trans hb) ▸ .refl

/-- Two steps of which each is known by itself. -/
theorem of_gives {P : α → Prop} {Q : β → Prop} (hx : Gives x P) (hy : Gives y Q)
    (h : ∀ a b, P a → Q b → R a b) : Twin R x y :=
  fun a b ha hb => h a b (hx a ha) (hy b hb)

theorem each {print print' : Tree → Print} {ts : List Tree}
    (h : ∀ t, Twin (Alike i j) (print t) (print' t)) :
    Twin (Alike.All i j) (each print ts) (each print' ts) := by
  induction ts with
  | nil => exact pure .nil
  | cons t rest ih =>
      exact (h t).bind fun _ _ hfirst => ih.bind fun _ _ hrest => pure (.cons hfirst hrest)

end Twin

/-! ## Twin rules -/

/-- Do the steps of two sets of rules print texts that are alike for their indentations? -/
abbrev Paired (r r' : Rules) : Print → Print → Prop :=
  Twin (Alike r.indent r'.indent)

/-- Do the rules for two indentations print alike texts? -/
structure Rules.Twin (r r' : Rules) : Prop where
  /-- Statements. -/
  statement : ∀ level t, Paired r r' (r.statement level t) (r'.statement level t)
  /-- Expressions. -/
  expression : ∀ place minimum t,
    Paired r r' (r.expression place minimum t) (r'.expression place minimum t)

namespace Rules.Twin

variable {r r' : Rules} (h : r.Twin r')

include h

/-! ### Blocks and lists -/

omit h in
theorem braced {lines lines' : List String} (level : Nat) (separator : String)
    (hlines : Alike.All r.indent r'.indent lines lines') :
    Alike r.indent r'.indent (r.braced level separator lines)
      (r'.braced level separator lines') := by
  unfold Rules.braced
  have hmapped := Alike.intercalate separator
    (hlines.map_append (a := pad r.indent (level + 1)) (b := pad r'.indent (level + 1)))
  infer_instance

theorem block (level : Nat) (ts : List Tree) :
    Paired r r' (r.block level ts) (r'.block level ts) := by
  unfold Rules.block
  refine .ite (fun _ => .pure inferInstance) fun _ => ?_
  exact .bind (.each (h.statement _)) fun _ _ hlines => .pure (braced _ _ hlines)

theorem blockOf (level : Nat) (t : Tree) :
    Paired r r' (r.blockOf level t) (r'.blockOf level t) :=
  .same fun _ => .same fun _ => h.block level _

theorem nested (level : Nat) (t : Tree) :
    Paired r r' (r.nested level t) (r'.nested level t) :=
  .same fun _ => .ite (fun _ => h.blockOf level t) fun _ => h.statement level t

theorem inBlock (level : Nat) (t : Tree) :
    Paired r r' (r.inBlock level t) (r'.inBlock level t) :=
  .same fun _ => .ite (fun _ => h.blockOf level t) fun _ => h.block level [t]

theorem arguments (place : Place) (args : List Tree) :
    Paired r r' (r.arguments place args) (r'.arguments place args) :=
  .bind (.each (h.expression _ _)) fun _ _ htexts => .pure (.intercalate _ htexts)

/-! ### Functions, properties and classes -/

theorem functionTail (place : Place) (t : Tree) :
    Paired r r' (r.functionTail place t) (r'.functionTail place t) :=
  .same fun _ => .same fun _ => .bind (h.arguments place _) fun _ _ _ => .same fun _ =>
    .bind (h.blockOf _ _) fun _ _ _ => .pure inferInstance

theorem function (place : Place) (t : Tree) :
    Paired r r' (r.function place t) (r'.function place t) := by
  have htail : ∀ head name : String, Paired r r'
      (do return head ++ name ++ (← r.functionTail place t))
      (do return head ++ name ++ (← r'.functionTail place t)) := fun head name =>
    .bind (h.functionTail place t) fun _ _ _ => .pure inferInstance
  unfold Rules.function
  exact .ite (fun _ => .same fun _ => .same fun _ => htail _ _) fun _ => .same fun _ => htail _ _

theorem arrow (place : Place) (t : Tree) :
    Paired r r' (r.arrow place t) (r'.arrow place t) := by
  unfold Rules.arrow
  refine .same fun _ => .bind (h.arguments place _) fun _ _ _ => .same fun _ => .same fun _ =>
    .ite (fun _ => .bind (h.blockOf _ _) fun _ _ _ => .pure inferInstance) fun _ => ?_
  refine .bind (h.expression _ _ _) fun a b _ => .pure ?_
  have hguarded := Alike.guarded (i := r.indent) (j := r'.indent) (a := a) (b := b)
    fun s => s.toList.head? = some '{'
  infer_instance

theorem propertyKey (place : Place) (t : Tree) :
    Paired r r' (r.propertyKey place t) (r'.propertyKey place t) := by
  unfold Rules.propertyKey
  refine .same fun _ => .ite (fun _ => ?_) fun _ => ?_
  · exact .bind (h.expression _ _ _) fun _ _ _ => .pure inferInstance
  · exact .same fun _ => .ite (fun _ => .refl) fun _ => h.expression _ _ _

omit h in
/-- Whatever a shorthand leaves out, its key is printed. -/
theorem shorthand_gives {rules : Rules} {place : Place} {key : String} {value : Tree} {full : Print}
    (hfull : Gives full fun text => key.toList <:+: text.toList) :
    Gives (do
      match ← shorthandDefault key value with
      | some none => return key
      | some (some right) =>
        return key ++ " = " ++ (← rules.expression place assignmentLevel right)
      | none => full : Print) fun text => key.toList <:+: text.toList := by
  refine .skip fun found => ?_
  match found with
  | some none => exact .pure (List.infix_refl _)
  | some (some right) =>
      refine .skip fun text => .pure ?_
      exact ⟨[], (" = " ++ text).toList, by simp⟩
  | none => exact hfull

theorem property (place : Place) (t : Tree) :
    Paired r r' (r.property place t) (r'.property place t) := by
  unfold Rules.property
  refine .same fun _ => .ite (fun _ => h.expression _ _ _) fun _ => ?_
  refine .bind (h.propertyKey place t) fun key key' hkey => .same fun value => ?_
  have hfull : Paired r r'
      (do return key ++ ": " ++ (← r.expression place assignmentLevel value))
      (do return key' ++ ": " ++ (← r'.expression place assignmentLevel value)) :=
    .bind (h.expression _ _ _) fun _ _ _ => .pure inferInstance
  have hgives : ∀ (rules : Rules) (key : String),
      Gives (do return key ++ ": " ++ (← rules.expression place assignmentLevel value) : Print)
        fun text => key.toList <:+: text.toList := fun rules key =>
    .skip fun text => .pure ⟨[], (": " ++ text).toList, by simp⟩
  refine .ite (fun _ => .bind (h.functionTail _ _) fun _ _ _ => .pure inferInstance) fun _ => ?_
  refine .ite (fun _ => .same fun _ => ?_) fun _ => .ite (fun _ => ?_) fun _ => hfull
  · exact .bind (h.functionTail _ _) fun _ _ _ => .pure inferInstance
  -- The texts of the key may differ, and with them what is left out behind it.
  rcases hkey.alike with rfl | ⟨hshown, hshown'⟩
  · refine .same fun found => ?_
    match found with
    | some none => exact .pure inferInstance
    | some (some right) => exact .bind (h.expression _ _ _) fun _ _ _ => .pure inferInstance
    | none => exact hfull
  · refine .of_gives (shorthand_gives (hgives r key)) (shorthand_gives (hgives r' key')) ?_
    exact fun a b ha hb => .of_shown (hshown.trans ha) (hshown'.trans hb)

theorem member (place : Place) (t : Tree) :
    Paired r r' (r.member place t) (r'.member place t) := by
  have hrest : ∀ (static mark : String) (value : Tree), Paired r r'
      (do
        let key ← r.propertyKey place t
        return static ++ mark ++ key ++ (← r.functionTail place value))
      (do
        let key ← r'.propertyKey place t
        return static ++ mark ++ key ++ (← r'.functionTail place value)) :=
    fun _ _ _ => .bind (h.propertyKey _ _) fun _ _ _ => .bind (h.functionTail _ _) fun _ _ _ =>
      .pure inferInstance
  unfold Rules.member
  refine .same fun value => .ite (fun _ => .same fun _ => hrest _ _ value) fun _ => ?_
  exact .same fun _ => hrest _ _ value

theorem classText (place : Place) (t : Tree) :
    Paired r r' (r.classText place t) (r'.classText place t) := by
  unfold Rules.classText
  extract_lets inner rest rest'
  have hrest : ∀ name, Paired r r' (rest name) (rest' name) := by
    intro name
    dsimp -zeta only [rest, rest']
    extract_lets rest rest'
    have hrest : ∀ a b, Alike r.indent r'.indent a b →
        Paired r r' (rest a) (rest' b) := by
      intro a b _
      dsimp -zeta only [rest, rest']
      extract_lets head rest head' rest'
      have hrest : ∀ members, Paired r r' (rest members)
          (rest' members) := by
        refine fun members => .ite (fun _ => .pure inferInstance) fun _ => ?_
        refine .bind (.each (h.member _)) fun _ _ hlines => .pure ?_
        have hbraced := braced place.level "\n" hlines
        infer_instance
      exact .ite (fun _ => .same fun _ => .same hrest) fun _ => .same hrest
    refine .ite (fun _ => .same fun _ => hrest _ _ .refl) fun _ => .bind (h.expression _ _ _) ?_
    intro a b _
    have hparent : Alike r.indent r'.indent (" extends " ++ a) (" extends " ++ b) := inferInstance
    exact .bind (.pure hparent) hrest
  exact .ite (fun _ => .same fun _ => .same fun _ => .same hrest) fun _ => .same hrest

/-! ### Expressions -/

theorem array (place : Place) (t : Tree) :
    Paired r r' (r.array place t) (r'.array place t) := by
  unfold Rules.array
  refine .same fun elements => .bind (.each (i := r.indent) (j := r'.indent) fun t => ?_) ?_
  · exact .ite (fun _ => .pure inferInstance) fun _ => h.expression _ _ _
  · intro _ _ htexts
    have hjoined := Alike.intercalate ", " htexts
    exact .pure inferInstance

theorem object (place : Place) (t : Tree) :
    Paired r r' (r.object place t) (r'.object place t) := by
  unfold Rules.object
  refine .same fun _ => .ite (fun _ => .pure inferInstance) fun _ => ?_
  exact .bind (.each (h.property _)) fun _ _ hlines => .pure (braced _ _ hlines)

theorem objectPattern (place : Place) (t : Tree) :
    Paired r r' (r.objectPattern place t) (r'.objectPattern place t) := by
  unfold Rules.objectPattern
  refine .same fun _ => .bind (.each (h.property _)) fun _ _ htexts => .pure ?_
  have hjoined := Alike.intercalate ", " htexts
  infer_instance

theorem templateParts (place : Place) (quasis exprs : List Tree) :
    Paired r r' (r.templateParts place quasis exprs) (r'.templateParts place quasis exprs) := by
  induction quasis generalizing exprs with
  | nil => exact .pure inferInstance
  | cons quasi quasis ih =>
      cases exprs with
      | nil => exact .same fun _ => .bind (ih []) fun _ _ _ => .pure inferInstance
      | cons expr exprs =>
          exact .same fun _ => .bind (h.expression _ _ _) fun _ _ _ =>
            .bind (ih exprs) fun _ _ _ => .pure inferInstance

theorem template (place : Place) (t : Tree) :
    Paired r r' (r.template place t) (r'.template place t) :=
  .same fun _ => .same fun _ => .same fun _ => .bind (h.templateParts _ _ _) fun _ _ _ =>
    .pure inferInstance

theorem taggedTemplate (place : Place) (t : Tree) :
    Paired r r' (r.taggedTemplate place t) (r'.taggedTemplate place t) :=
  .same fun _ => .bind (h.expression _ _ _) fun _ _ _ => .same fun _ =>
    .bind (h.template _ _) fun _ _ _ => .pure inferInstance

theorem access (place : Place) (t : Tree) :
    Paired r r' (r.access place t) (r'.access place t) := by
  unfold Rules.access
  refine .same fun object => .bind (h.expression _ _ _) fun a b _ => ?_
  have hguarded := Alike.guarded (i := r.indent) (j := r'.indent) (a := a) (b := b)
    fun s => (object.isKind "Literal" && isDigits s) = true
  refine .ite (fun _ => .same fun _ => .bind (h.expression _ _ _) fun _ _ _ => .pure ?_) ?_
  · infer_instance
  · exact fun _ => .same fun _ => .same fun _ => .pure inferInstance

theorem callArguments (place : Place) (t : Tree) :
    Paired r r' (r.callArguments place t) (r'.callArguments place t) :=
  .same fun _ => .bind (h.arguments _ _) fun _ _ _ => .pure inferInstance

theorem call (place : Place) (t : Tree) :
    Paired r r' (r.call place t) (r'.call place t) :=
  .same fun _ => .bind (h.expression _ _ _) fun _ _ _ => .bind (h.callArguments _ _) fun _ _ _ =>
    .pure inferInstance

theorem new (place : Place) (t : Tree) :
    Paired r r' (r.new place t) (r'.new place t) := by
  unfold Rules.new
  refine .same fun callee => .bind (h.expression _ _ _) fun a b _ => ?_
  have hguarded := Alike.guarded (i := r.indent) (j := r'.indent) (a := a) (b := b)
    fun _ => chainHasCall callee = true
  exact .bind (h.callArguments _ _) fun _ _ _ => .pure inferInstance

theorem unary (place : Place) (t : Tree) :
    Paired r r' (r.unary place t) (r'.unary place t) := by
  unfold Rules.unary
  refine .same fun operator => .same fun _ => .bind (h.expression _ _ _) fun a b hab => ?_
  rcases hab.alike with rfl | ⟨hshown, hshown'⟩
  · exact .refl
  · refine .of_gives (P := fun text => a.toList <:+: text.toList)
      (Q := fun text => b.toList <:+: text.toList) ?_ ?_ fun _ _ ha hb =>
        .of_shown (hshown.trans ha) (hshown'.trans hb)
    · exact .ite (fun _ => .pure ⟨(operator ++ " ").toList, [], by simp⟩)
        fun _ => .pure ⟨operator.toList, [], by simp⟩
    · exact .ite (fun _ => .pure ⟨(operator ++ " ").toList, [], by simp⟩)
        fun _ => .pure ⟨operator.toList, [], by simp⟩

theorem update (place : Place) (t : Tree) :
    Paired r r' (r.update place t) (r'.update place t) := by
  unfold Rules.update
  refine .same fun _ => .same fun _ => .ite (fun _ => ?_) fun _ => ?_
  · exact .bind (h.expression _ _ _) fun _ _ _ => .pure inferInstance
  · exact .bind (h.expression _ _ _) fun _ _ _ => .pure inferInstance

theorem binary (place : Place) (t : Tree) :
    Paired r r' (r.binary place t) (r'.binary place t) := by
  unfold Rules.binary
  refine .same fun _ => .same fun _ => .same fun left => .ite (fun _ => ?_) fun _ => ?_
  · refine .bind (h.expression _ _ _) fun a b _ => .same fun _ => .bind (h.expression _ _ _) ?_
    have hguarded := Alike.guarded (i := r.indent) (j := r'.indent) (a := a) (b := b)
      fun s => (["UnaryExpression", "AwaitExpression"].any left.isKind &&
        s.toList.head? ≠ some '(') = true
    exact fun _ _ _ => .pure inferInstance
  · exact .bind (h.expression _ _ _) fun _ _ _ => .same fun _ => .bind (h.expression _ _ _)
      fun _ _ _ => .pure inferInstance

theorem conditional (place : Place) (t : Tree) :
    Paired r r' (r.conditional place t) (r'.conditional place t) :=
  .same fun _ => .bind (h.expression _ _ _) fun _ _ _ => .same fun _ =>
    .bind (h.expression _ _ _) fun _ _ _ => .same fun _ =>
      .bind (h.expression _ _ _) fun _ _ _ => .pure inferInstance

theorem assignment (place : Place) (t : Tree) :
    Paired r r' (r.assignment place t) (r'.assignment place t) :=
  .same fun _ => .bind (h.expression _ _ _) fun _ _ _ => .same fun _ =>
    .bind (h.expression _ _ _) fun _ _ _ => .same fun _ => .pure inferInstance

theorem withDefault (place : Place) (t : Tree) :
    Paired r r' (r.withDefault place t) (r'.withDefault place t) :=
  .same fun _ => .bind (h.expression _ _ _) fun _ _ _ => .same fun _ =>
    .bind (h.expression _ _ _) fun _ _ _ => .pure inferInstance

theorem yield (place : Place) (t : Tree) :
    Paired r r' (r.yield place t) (r'.yield place t) :=
  .ite (fun _ => .pure inferInstance) fun _ => .bind (h.expression _ _ _) fun _ _ _ =>
    .pure inferInstance

theorem sequence (place : Place) (t : Tree) :
    Paired r r' (r.sequence place t) (r'.sequence place t) :=
  .same fun _ => .same fun _ => .bind (.each (h.expression _ _)) fun _ _ htexts =>
    .pure (.intercalate _ htexts)

theorem spread (place : Place) (t : Tree) :
    Paired r r' (r.spread place t) (r'.spread place t) :=
  .same fun _ => .bind (h.expression _ _ _) fun _ _ _ => .pure inferInstance

theorem await (place : Place) (t : Tree) :
    Paired r r' (r.await place t) (r'.await place t) :=
  .same fun _ => .bind (h.expression _ _ _) fun _ _ _ => .pure inferInstance

/-- The forms of a kind of expression, if there are any, print alike texts. -/
theorem expressionForm (kind : String) :
    Option.Rel (fun form form' => ∀ place t,
      Paired r r' (form place t) (form' place t))
      (r.expressionForm? kind) (r'.expressionForm? kind) := by
  unfold Rules.expressionForm?
  split
  · exact .some fun _ _ => .refl
  · exact .some fun _ _ => .refl
  · exact .some fun _ _ => .refl
  · exact .some fun _ _ => .refl
  · exact .some fun _ _ => .refl
  · exact .some h.array
  · exact .some h.array
  · exact .some h.object
  · exact .some h.objectPattern
  · exact .some h.function
  · exact .some h.arrow
  · exact .some h.classText
  · exact .some h.template
  · exact .some h.taggedTemplate
  · exact .some h.access
  · exact .some h.call
  · exact .some h.new
  · exact .some h.sequence
  · exact .some h.unary
  · exact .some h.update
  · exact .some h.binary
  · exact .some h.binary
  · exact .some h.conditional
  · exact .some h.assignment
  · exact .some h.withDefault
  · exact .some h.spread
  · exact .some h.spread
  · exact .some h.yield
  · exact .some h.await
  · exact .some fun _ _ => .refl
  · exact .none

theorem expressionAt (place : Place) (minimum : Nat) (t : Tree) :
    Paired r r' (r.expressionAt place minimum t) (r'.expressionAt place minimum t) := by
  unfold Rules.expressionAt
  refine .same fun kind => ?_
  have hforms := h.expressionForm kind
  revert hforms
  generalize r.expressionForm? kind = form?, r'.expressionForm? kind = form?'
  rintro (⟨hform⟩ | _)
  · refine .same fun _ => .same fun _ => .ite (fun _ => ?_) fun _ => hform _ _
    exact .bind (hform _ _) fun _ _ _ => .pure inferInstance
  · exact .refl

/-! ### Statements -/

theorem plain (level minimum : Nat) (t : Tree) :
    Paired r r' (r.plain level minimum t) (r'.plain level minimum t) :=
  h.expression _ _ _

theorem part (level : Nat) (t : Tree) (key : String) :
    Paired r r' (r.part level t key) (r'.part level t key) :=
  .same fun _ => h.plain _ _ _

theorem body (level : Nat) (t : Tree) :
    Paired r r' (r.body level t) (r'.body level t) :=
  .same fun _ => h.nested _ _

theorem expressionStatement (level : Nat) (t : Tree) :
    Paired r r' (r.expressionStatement level t) (r'.expressionStatement level t) := by
  unfold Rules.expressionStatement
  refine .bind (h.part _ _ _) fun a b _ => ?_
  have hguarded := Alike.guarded (i := r.indent) (j := r'.indent) (a := a) (b := b)
    fun s => isAmbiguousStart s = true
  exact .pure inferInstance

theorem declarator (place : Place) (t : Tree) :
    Paired r r' (r.declarator place t) (r'.declarator place t) :=
  .same fun _ => .bind (h.expression _ _ _) fun _ _ _ => .ite (fun _ => .pure inferInstance)
    fun _ => .bind (h.expression _ _ _) fun _ _ _ => .pure inferInstance

theorem declaration (place : Place) (t : Tree) :
    Paired r r' (r.declaration place t) (r'.declaration place t) := by
  unfold Rules.declaration
  refine .same fun _ => .same fun _ => .bind (.each (h.declarator _)) fun _ _ htexts => ?_
  have hjoined := Alike.intercalate ", " htexts
  exact .same fun _ => .pure inferInstance

theorem ifStatement (level : Nat) (t : Tree) :
    Paired r r' (r.ifStatement level t) (r'.ifStatement level t) := by
  unfold Rules.ifStatement
  refine .bind (h.part _ _ _) fun _ _ _ => .ite (fun _ => .same fun _ => ?_) fun _ => ?_
  · exact .bind (h.nested _ _) fun _ _ _ => .pure inferInstance
  · refine .same fun _ => .bind (h.inBlock _ _) fun _ _ _ => .same fun _ => .ite (fun _ => ?_) ?_
    · exact .bind (h.statement _ _) fun _ _ _ => .pure inferInstance
    · exact fun _ => .bind (h.nested _ _) fun _ _ _ => .pure inferInstance

theorem loopInit (level : Nat) (t : Tree) :
    Paired r r' (r.loopInit level t) (r'.loopInit level t) :=
  .ite (fun _ => .pure inferInstance) fun _ => .same fun _ => .ite (fun _ => h.declaration _ _)
    fun _ => h.expression _ _ _

theorem loopPart (level : Nat) (t : Tree) :
    Paired r r' (r.loopPart level t) (r'.loopPart level t) :=
  .ite (fun _ => .pure inferInstance) fun _ => .bind (h.plain _ _ _) fun _ _ _ =>
    .pure inferInstance

theorem forStatement (level : Nat) (t : Tree) :
    Paired r r' (r.forStatement level t) (r'.forStatement level t) :=
  .bind (h.loopInit _ _) fun _ _ _ => .bind (h.loopPart _ _) fun _ _ _ =>
    .bind (h.loopPart _ _) fun _ _ _ => .bind (h.body _ _) fun _ _ _ => .pure inferInstance

theorem loopTarget (level : Nat) (t : Tree) :
    Paired r r' (r.loopTarget level t) (r'.loopTarget level t) :=
  .same fun _ => .ite (fun _ => h.declaration _ _) fun _ => h.plain _ _ _

theorem forEach (word : String) (minimum level : Nat) (t : Tree) :
    Paired r r' (r.forEach word minimum level t) (r'.forEach word minimum level t) :=
  .same fun _ => .bind (h.loopTarget _ _) fun _ _ _ => .same fun _ => .bind (h.plain _ _ _)
    fun _ _ _ => .bind (h.body _ _) fun _ _ _ => .pure inferInstance

theorem headed (word key : String) (level : Nat) (t : Tree) :
    Paired r r' (r.headed word key level t) (r'.headed word key level t) :=
  .bind (h.part _ _ _) fun _ _ _ => .bind (h.body _ _) fun _ _ _ => .pure inferInstance

theorem doWhile (level : Nat) (t : Tree) :
    Paired r r' (r.doWhile level t) (r'.doWhile level t) :=
  .bind (h.part _ _ _) fun _ _ _ => .bind (h.body _ _) fun _ _ _ => .pure inferInstance

theorem returnStatement (level : Nat) (t : Tree) :
    Paired r r' (r.returnStatement level t) (r'.returnStatement level t) :=
  .ite (fun _ => .pure inferInstance) fun _ => .bind (h.plain _ _ _) fun _ _ _ =>
    .pure inferInstance

theorem throwStatement (level : Nat) (t : Tree) :
    Paired r r' (r.throwStatement level t) (r'.throwStatement level t) :=
  .bind (h.part _ _ _) fun _ _ _ => .pure inferInstance

theorem labelled (level : Nat) (t : Tree) :
    Paired r r' (r.labelled level t) (r'.labelled level t) :=
  .same fun _ => .same fun _ => .bind (h.statement _ _) fun _ _ _ => .pure inferInstance

theorem handler (level : Nat) (t : Tree) :
    Paired r r' (r.handler level t) (r'.handler level t) := by
  have hrest : ∀ a b, Alike r.indent r'.indent a b → Paired r r'
      (do return a ++ (← r.blockOf level (← t.need "body")))
      (do return b ++ (← r'.blockOf level (← t.need "body"))) := fun a b _ =>
    .same fun _ => .bind (h.blockOf _ _) fun _ _ _ => .pure inferInstance
  unfold Rules.handler
  refine .same fun _ => .ite (fun _ => .same fun _ => hrest _ _ .refl) fun _ => ?_
  refine .bind (h.plain _ _ _) fun a b _ => ?_
  have hparam : Alike r.indent r'.indent (" catch (" ++ a ++ ") ") (" catch (" ++ b ++ ") ") :=
    inferInstance
  exact .bind (.pure hparam) hrest

theorem tryStatement (level : Nat) (t : Tree) :
    Paired r r' (r.tryStatement level t) (r'.tryStatement level t) := by
  unfold Rules.tryStatement
  refine .same fun _ => .bind (h.blockOf _ _) fun block block' _ => ?_
  extract_lets rest rest'
  have hrest : ∀ a b, Alike r.indent r'.indent a b →
      Paired r r' (rest a) (rest' b) := by
    refine fun a b _ => .ite (fun _ => .same fun _ => .pure inferInstance) fun _ => ?_
    refine .bind (h.blockOf _ _) fun final final' _ => ?_
    have hfinal : Alike r.indent r'.indent (" finally " ++ final) (" finally " ++ final') :=
      inferInstance
    exact .bind (.pure hfinal) fun _ _ _ => .pure inferInstance
  exact .ite (fun _ => .same fun _ => hrest _ _ .refl) fun _ => .bind (h.handler _ _) hrest

theorem switchCase (level : Nat) (t : Tree) :
    Printer.Twin (Alike.All r.indent r'.indent) (r.switchCase level t) (r'.switchCase level t) := by
  unfold Rules.switchCase
  refine .same fun _ => ?_
  extract_lets test rest rest'
  have hrest : ∀ a b, Alike r.indent r'.indent a b →
      Printer.Twin (Alike.All r.indent r'.indent) (rest a) (rest' b) := by
    refine fun a b _ => .same fun _ => .bind (.each (h.statement _)) fun _ _ hlines => .pure ?_
    exact .cons inferInstance hlines.map_append
  refine .ite (fun _ => .same fun _ => hrest _ _ .refl) fun _ => ?_
  refine .bind (h.plain _ _ _) fun a b _ => ?_
  have hlabel : Alike r.indent r'.indent ("case " ++ a ++ ":") ("case " ++ b ++ ":") :=
    inferInstance
  exact .bind (.pure hlabel) hrest

theorem switchCases (level : Nat) (ts : List Tree) :
    Printer.Twin (Alike.All r.indent r'.indent) (r.switchCases level ts)
      (r'.switchCases level ts) := by
  induction ts with
  | nil => exact .pure .nil
  | cons t rest ih =>
      exact .bind (h.switchCase _ _) fun _ _ hfirst => .bind ih fun _ _ hrest =>
        .pure (List.rel_append hfirst hrest)

theorem switchStatement (level : Nat) (t : Tree) :
    Paired r r' (r.switchStatement level t) (r'.switchStatement level t) := by
  unfold Rules.switchStatement
  refine .bind (h.part _ _ _) fun _ _ _ => .same fun _ => .ite (fun _ => .pure inferInstance) ?_
  refine fun _ => .bind (h.switchCases _ _) fun _ _ hlines => ?_
  have hjoined := Alike.intercalate "\n" hlines
  exact .pure inferInstance

theorem exportNamed (level : Nat) (t : Tree) :
    Paired r r' (r.exportNamed level t) (r'.exportNamed level t) := by
  unfold Rules.exportNamed
  exact .ite (fun _ => .bind (h.statement _ _) fun _ _ _ => .pure inferInstance) fun _ => .refl

theorem exportDefault (level : Nat) (t : Tree) :
    Paired r r' (r.exportDefault level t) (r'.exportDefault level t) := by
  unfold Rules.exportDefault
  refine .same fun _ => .same fun _ => .ite (fun _ => ?_) fun _ => ?_
  · exact .bind (h.statement _ _) fun _ _ _ => .pure inferInstance
  · exact .bind (h.plain _ _ _) fun _ _ _ => .pure inferInstance

/-- The forms of a kind of statement, if there are any, print alike texts. -/
theorem statementForm (kind : String) :
    Option.Rel (fun form form' => ∀ level t,
      Paired r r' (form level t) (form' level t))
      (r.statementForm? kind) (r'.statementForm? kind) := by
  unfold Rules.statementForm?
  split
  · exact .some h.blockOf
  · exact .some fun _ _ => .refl
  · exact .some fun _ _ => .refl
  · exact .some h.expressionStatement
  · exact .some fun _ _ => .bind (h.declaration _ _) fun _ _ _ => .pure inferInstance
  · exact .some fun _ _ => h.function _ _
  · exact .some fun _ _ => h.classText _ _
  · exact .some h.returnStatement
  · exact .some h.throwStatement
  · exact .some h.ifStatement
  · exact .some h.forStatement
  · exact .some (h.forEach _ _)
  · exact .some (h.forEach _ _)
  · exact .some (h.headed _ _)
  · exact .some h.doWhile
  · exact .some (h.headed _ _)
  · exact .some h.labelled
  · exact .some fun _ _ => .refl
  · exact .some fun _ _ => .refl
  · exact .some h.tryStatement
  · exact .some h.switchStatement
  · exact .some fun _ _ => .refl
  · exact .some h.exportNamed
  · exact .some h.exportDefault
  · exact .some fun _ _ => .refl
  · exact .none

theorem statementAt (level : Nat) (t : Tree) :
    Paired r r' (r.statementAt level t) (r'.statementAt level t) := by
  unfold Rules.statementAt
  refine .same fun kind => ?_
  have hforms := h.statementForm kind
  revert hforms
  generalize r.statementForm? kind = form?, r'.statementForm? kind = form?'
  rintro (⟨hform⟩ | _)
  · exact hform _ _
  · exact .refl

end Rules.Twin

/-! ## Whole trees -/

theorem indent_rules (indent : String) (depth : Nat) : (rules indent depth).indent = indent := by
  cases depth <;> rfl

theorem rules_twin (i j : String) (depth : Nat) : (rules i depth).Twin (rules j depth) := by
  induction depth with
  | zero => exact ⟨fun _ _ => .refl, fun _ _ _ => .refl⟩
  | succ depth ih =>
      have hstatement := ih.statementAt
      have hexpression := ih.expressionAt
      unfold Paired at hstatement hexpression
      rw [indent_rules, indent_rules] at hstatement hexpression
      exact ⟨hstatement, hexpression⟩

/-- The texts of a tree with two indentations are equal, or each shows its own. -/
theorem render_alike (i j : String) (t : Tree) : Twin (Alike i j) (t.render i) (t.render j) := by
  have hrules := rules_twin i j (t.depth + 2)
  have hstatement : ∀ u, Twin (Alike i j) ((rules i (t.depth + 2)).statement 0 u)
      ((rules j (t.depth + 2)).statement 0 u) := hrules.statement 0
  unfold Tree.render
  refine .same fun _ => .ite (fun _ => .same fun _ => .ite (fun _ => .pure inferInstance) ?_) ?_
  · refine fun _ => .bind (.each hstatement) fun _ _ hlines => ?_
    have hjoined := Alike.intercalate "\n" hlines
    exact .pure inferInstance
  · exact fun _ => .ite (fun _ => hstatement t) fun _ => hrules.expression _ _ t

end NameRecovery.Printer
