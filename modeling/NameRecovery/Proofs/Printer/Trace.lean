import NameRecovery.Proofs.Printer.Outline
import Mathlib.Data.List.Forall2

/-!
# Outlines trace the printer

Printing outlines with a flag does what the printer does, expression by expression: it makes
the same texts, or meets the same faults, and puts the flag back.  While the flag is set, no
`in` operator stands outside brackets.

* `Tells`, `Shielded` — an outline makes the text, and has no bare `in` operator;
* `Traces` — a step of printing with a flag does what a step of the printer does;
* `Outlines.Trace` — outlines of expressions trace the printer; one lemma for each form;
* `outlines_trace` — so do the outlines for trees of every depth.
-/

namespace NameRecovery.Printer

variable {α β γ δ : Type} {flag : Bool} {p q : Pieces} {s t : String}

/-! ## Outlines of a text -/

@[simp] theorem spell_append (p q : Pieces) : spell (p ++ q) = spell p ++ spell q := by
  induction p with
  | nil => simp [spell]
  | cons piece rest ih => simp [spell, ih, String.append_assoc]

@[simp] theorem depths_append (around : Nat) (p q : Pieces) :
    depths around (p ++ q) = depths around p ++ depths around q := by
  induction p with
  | nil => simp [depths]
  | cons piece rest ih => simp [depths, ih]

mutual

theorem Piece.le_of_mem_depths (piece : Piece) {around d : Nat} (h : d ∈ piece.depths around) :
    around ≤ d := by
  cases piece with
  | plain text => exact absurd h List.not_mem_nil
  | inOperator => exact Nat.le_of_eq (List.mem_singleton.1 h).symm
  | statement text => exact Nat.le_of_eq (List.mem_singleton.1 h).symm
  | enclosed bracket inner => exact Nat.le_of_succ_le (le_of_mem_depths inner h)

/-- Pieces do not stand in fewer brackets than all of them. -/
theorem le_of_mem_depths (p : Pieces) {around d : Nat} (h : d ∈ depths around p) :
    around ≤ d := by
  cases p with
  | nil => exact absurd h List.not_mem_nil
  | cons piece rest =>
      rcases List.mem_append.1 h with h | h
      · exact piece.le_of_mem_depths h
      · exact le_of_mem_depths rest h

end

/-- Do the pieces make the text? -/
class Tells (p : Pieces) (s : String) : Prop where
  spell_eq : spell p = s

namespace Tells

theorem congr (h : Tells p s) (heq : s = t) : Tells p t :=
  heq ▸ h

instance nil : Tells [] "" := ⟨rfl⟩

instance plainly : Tells (plainly s) s :=
  ⟨by simp [Printer.plainly, spell, Piece.spell]⟩

instance append [hp : Tells p s] [hq : Tells q t] : Tells (p ++ q) (s ++ t) :=
  ⟨by rw [spell_append, hp.spell_eq, hq.spell_eq]⟩

instance within {bracket : Bracket} [h : Tells p s] :
    Tells (within bracket p) (bracket.opening ++ s ++ bracket.closing) :=
  ⟨by simp [Printer.within, spell, Piece.spell, h.spell_eq]⟩

instance inParens [Tells p s] : Tells (Printer.within .round p) (inParens s) :=
  @within p s .round _

instance inSquare [Tells p s] : Tells (Printer.within .square p) ("[" ++ s ++ "]") :=
  @within p s .square _

instance inCurly [Tells p s] : Tells (Printer.within .curly p) ("\x7b" ++ s ++ "\x7d") :=
  @within p s .curly _

instance braces : Tells (Printer.within .curly []) "\x7b\x7d" :=
  @within [] "" .curly _

/-- Parentheses that depend on the text. -/
instance guarded {c : Prop} [Decidable c] [h : Tells p s] :
    Tells (if c then Printer.within .round p else p) (if c then Printer.inParens s else s) := by
  split
  · infer_instance
  · exact h

theorem separated (separator : String) {ps : List Pieces} {ss : List String}
    (h : List.Forall₂ Tells ps ss) :
    Tells (separated separator ps) (String.intercalate separator ss) := by
  induction h with
  | nil => exact ⟨rfl⟩
  | @cons first text rest texts hfirst hrest ih =>
      cases hrest with
      | nil =>
          rw [String.intercalate_singleton]
          exact hfirst
      | cons =>
          rw [String.intercalate_cons_cons]
          exact append

end Tells

/-- Do all `in` operators and all statements stand in brackets, if the flag is set? -/
class Shielded (flag : Bool) (p : Pieces) : Prop where
  pos : flag = true → ∀ d ∈ depths 0 p, 0 < d

namespace Shielded

instance nil : Shielded flag [] := ⟨fun _ => nofun⟩

instance plainly : Shielded flag (plainly s) := ⟨fun _ => nofun⟩

instance append [hp : Shielded flag p] [hq : Shielded flag q] : Shielded flag (p ++ q) := by
  refine ⟨fun hset d hd => ?_⟩
  rw [depths_append] at hd
  rcases List.mem_append.1 hd with hd | hd
  · exact hp.pos hset d hd
  · exact hq.pos hset d hd

instance within {bracket : Bracket} : Shielded flag (within bracket p) := by
  refine ⟨fun _ d hd => ?_⟩
  have hinner : d ∈ depths 1 p := by simpa [Printer.within, depths, Piece.depths] using hd
  exact le_of_mem_depths p hinner

instance guarded {c : Prop} [Decidable c] [h : Shielded flag p] :
    Shielded flag (if c then Printer.within .round p else p) := by
  split
  · infer_instance
  · exact h

theorem separated (separator : String) {ps : List Pieces} (h : ∀ p ∈ ps, Shielded flag p) :
    Shielded flag (separated separator ps) := by
  induction ps with
  | nil => exact nil
  | cons first rest ih =>
      cases rest with
      | nil => exact h first List.mem_cons_self
      | cons next rest =>
          have hfirst := h first List.mem_cons_self
          have hrest := ih fun p hp => h p (List.mem_cons_of_mem _ hp)
          exact append

end Shielded

/-- Do the pieces make the text, and is no `in` operator bare if the flag is set? -/
structure Outlined (flag : Bool) (p : Pieces) (s : String) : Prop where
  tells : Tells p s
  shielded : Shielded flag p

/-! ## Traces of the printer -/

/-- Does printing with the flag do what the printer does, with a related result, and put the
flag back? -/
def Traces (R : α → β → Prop) (flag : Bool) (x : Outliner α) (y : Except Fault β) : Prop :=
  match y with
  | .ok b => ∃ a, x.run flag = .ok (a, flag) ∧ R a b
  | .error e => x.run flag = .error e

namespace Traces

variable {x : Outliner α} {y : Except Fault β} {f : α → Outliner γ} {g : β → Except Fault δ}
  {R : α → β → Prop} {S : γ → δ → Prop}

theorem pure {a : α} {b : β} (h : R a b) : Traces R flag (pure a) (pure b) :=
  ⟨a, rfl, h⟩

theorem bind (hx : Traces R flag x y) (hf : ∀ a b, R a b → Traces S flag (f a) (g b)) :
    Traces S flag (x >>= f) (y >>= g) := by
  cases y with
  | error e =>
      have hrun : (x >>= f).run flag = .error e := by
        rw [StateT.run_bind, show x.run flag = .error e from hx]
        rfl
      exact hrun
  | ok b =>
      obtain ⟨a, hrun, hab⟩ := hx
      have hrest := hf a b hab
      have hbind : (x >>= f).run flag = (f a).run flag := by
        rw [StateT.run_bind, hrun]
        rfl
      show match g b with
        | .ok d => ∃ c, (x >>= f).run flag = .ok (c, flag) ∧ S c d
        | .error e => (x >>= f).run flag = .error e
      rw [hbind]
      exact hrest

/-- What is read off the tree in both. -/
theorem same {y : Except Fault α} {f : α → Outliner γ} {g : α → Except Fault δ}
    (hf : ∀ a, y = .ok a → Traces S flag (f a) (g a)) :
    Traces S flag (ask y >>= f) (y >>= g) := by
  cases y with
  | error e => rfl
  | ok a => exact hf a rfl

/-- A text that is read off the tree, and the pieces made of it. -/
theorem read {R : Pieces → String → Prop} {make : String → Pieces} {y : Print}
    (h : ∀ s, R (make s) s) : Traces R flag (do return make (← ask y)) y := by
  cases y with
  | error e => rfl
  | ok s => exact pure (h s)

/-- What is known in both. -/
theorem known {a : α} {f : α → Outliner γ} {g : α → Except Fault δ}
    (hf : Traces S flag (f a) (g a)) :
    Traces S flag (Pure.pure a >>= f) (Pure.pure a >>= g) :=
  hf

theorem ite {c : Prop} [Decidable c] {x x' : Outliner α} {y y' : Except Fault β}
    (hx : c → Traces R flag x y) (hy : ¬ c → Traces R flag x' y') :
    Traces R flag (if c then x else x') (if c then y else y') := by
  split
  · exact hx ‹c›
  · exact hy ‹¬ c›

/-- **Printing with another flag puts the old one back.** -/
theorem withFlag {other : Bool} (h : Traces R other x y) :
    Traces R flag (withFlag other x) y := by
  cases y with
  | error e =>
      have hrun : (Printer.withFlag other x).run flag = (x.run other).bind fun result =>
          .ok (result.1, flag) := rfl
      rw [Traces, hrun, show x.run other = .error e from h]
      rfl
  | ok b =>
      obtain ⟨a, hrun, hab⟩ := h
      have hput : (Printer.withFlag other x).run flag = (x.run other).bind fun result =>
          .ok (result.1, flag) := rfl
      refine ⟨a, ?_, hab⟩
      rw [hput, hrun]
      rfl

theorem each {outline : Tree → Outliner Pieces} {print : Tree → Print} {R : Pieces → String → Prop}
    {ts : List Tree} (h : ∀ t, Traces R flag (outline t) (print t)) :
    Traces (List.Forall₂ R) flag (outlineEach outline ts) (each print ts) := by
  induction ts with
  | nil => exact pure .nil
  | cons t rest ih =>
      exact (h t).bind fun _ _ hfirst => ih.bind fun _ _ hrest => pure (.cons hfirst hrest)

/-- A part that has an outline. -/
theorem part {x : Outliner Pieces} {y : Print} {f : Pieces → Outliner γ}
    {g : String → Except Fault δ} (hx : Traces (Outlined flag) flag x y)
    (hf : ∀ p s, [Tells p s] → [Shielded flag p] → Traces S flag (f p) (g s)) :
    Traces S flag (x >>= f) (y >>= g) :=
  hx.bind fun p s h => @hf p s h.tells h.shielded

/-- The whole outline. -/
theorem done {p : Pieces} {s : String} [htells : Tells p s] [hshielded : Shielded flag p] :
    Traces (Outlined flag) flag (Pure.pure p) (Pure.pure s) :=
  pure ⟨htells, hshielded⟩

end Traces

theorem outlined_separated (separator : String) {ps : List Pieces} {ss : List String}
    (h : List.Forall₂ (Outlined flag) ps ss) :
    Outlined flag (separated separator ps) (String.intercalate separator ss) := by
  refine ⟨.separated _ (h.imp fun _ _ hp => hp.tells), .separated _ fun p hp => ?_⟩
  induction h with
  | nil => exact absurd hp List.not_mem_nil
  | cons hfirst _ ih =>
      rcases List.mem_cons.1 hp with rfl | hp
      · exact hfirst.shielded
      · exact ih hp

/-! ## Traces of the forms -/

/-- Do the outlines of expressions trace the printer? -/
def Outlines.Trace (o : Outlines) : Prop :=
  ∀ flag level minimum t, Traces (Outlined flag) flag (o.expression level minimum t)
    (o.rules.expression ⟨level, flag⟩ minimum t)

namespace Outlines.Trace

variable {o : Outlines} (h : o.Trace)

/-! ### Blocks, functions and classes -/

section Blocks

omit h

theorem braced (level : Nat) (separator : String) {ps : List Pieces} {ss : List String}
    (hlines : List.Forall₂ Tells ps ss) :
    Outlined flag (o.braced level separator ps) (o.rules.braced level separator ss) := by
  have hpadded : List.Forall₂ Tells
      (ps.map (plainly (pad o.rules.indent (level + 1)) ++ ·))
      (ss.map (pad o.rules.indent (level + 1) ++ ·)) := by
    rw [List.forall₂_map_left_iff, List.forall₂_map_right_iff]
    exact hlines.imp fun p s hp => @Tells.append _ _ _ _ .plainly hp
  have hseparated := Tells.separated separator hpadded
  refine ⟨.congr (s := "\x7b" ++ ("\n" ++ String.intercalate separator
    (ss.map (pad o.rules.indent (level + 1) ++ ·)) ++ "\n" ++ pad o.rules.indent level) ++ "\x7d")
    .inCurly ?_, .within⟩
  simp only [Rules.braced, String.append_assoc]
  rfl

theorem statement (level : Nat) (t : Tree) :
    Traces Tells flag (o.statement level t) (o.rules.statement level t) := by
  have hstatement : ∀ s : String, Tells [.statement s] s :=
    fun s => ⟨by simp [spell, Piece.spell]⟩
  exact .withFlag (.read hstatement)

theorem block (level : Nat) (ts : List Tree) :
    Traces (Outlined flag) flag (o.block level ts) (o.rules.block level ts) := by
  unfold Outlines.block Rules.block
  refine .ite (fun _ => .done) fun _ => ?_
  exact .bind (.each (statement _)) fun _ _ hlines => .pure (braced _ _ hlines)

theorem blockOf (level : Nat) (t : Tree) :
    Traces (Outlined flag) flag (o.blockOf level t) (o.rules.blockOf level t) :=
  .same fun _ _ => .same fun _ _ => block level _

end Blocks

include h

theorem arguments (level : Nat) (args : List Tree) : Traces (Outlined flag) flag
    (o.arguments level args) (o.rules.arguments ⟨level, flag⟩ args) :=
  .bind (.each (h _ _ _)) fun _ _ hseparated => .pure (outlined_separated _ hseparated)

theorem functionTail (level : Nat) (t : Tree) : Traces (Outlined flag) flag
    (o.functionTail level t) (o.rules.functionTail ⟨level, flag⟩ t) := by
  refine .same fun t _ => .same fun params _ => .part (h.arguments level params) fun p s _ _ => ?_
  refine .same fun body _ => .part (blockOf level body) fun q u _ _ => .pure ⟨?_, inferInstance⟩
  refine .congr (s := Printer.inParens s ++ " " ++ u) inferInstance ?_
  simp only [Printer.inParens, String.append_assoc]
  rfl

theorem function (level : Nat) (t : Tree) : Traces (Outlined flag) flag
    (o.function level t) (o.rules.function ⟨level, flag⟩ t) := by
  have htail : ∀ head name : String, Traces (Outlined flag) flag
      (do return plainly head ++ plainly name ++ (← o.functionTail level t))
      (do return head ++ name ++ (← o.rules.functionTail ⟨level, flag⟩ t)) := fun head name =>
    .part (h.functionTail level t) fun _ _ _ _ => .done
  unfold Outlines.function Rules.function
  refine .ite (fun _ => .same fun _ _ => .same fun _ _ => htail _ _) fun _ => ?_
  exact htail _ _

theorem arrow (level : Nat) (t : Tree) : Traces (Outlined flag) flag
    (o.arrow level t) (o.rules.arrow ⟨level, flag⟩ t) := by
  unfold Outlines.arrow Rules.arrow
  refine .same fun _ _ => .part (h.arguments level _) fun p s _ _ => ?_
  have hhead : Tells
      (plainly (if t.has "async" then "async " else "") ++ within .round p ++ plainly " => ")
      ((if t.has "async" then "async " else "") ++ "(" ++ s ++ ") => ") := by
    refine .congr (s := (if t.has "async" then "async " else "") ++ inParens s ++ " => ")
      inferInstance ?_
    simp only [Printer.inParens, String.append_assoc]
    rfl
  refine .same fun body _ => .same fun _ _ => .ite (fun _ => ?_) fun _ => ?_
  · exact .part (blockOf level body) fun _ _ _ _ => .done
  · refine .part (h _ _ _ _) fun q u hq _ => ?_
    obtain rfl := hq.spell_eq
    exact .done

theorem propertyKey (level : Nat) (t : Tree) : Traces (Outlined flag) flag
    (o.propertyKey level t) (o.rules.propertyKey ⟨level, flag⟩ t) := by
  unfold Outlines.propertyKey Rules.propertyKey
  refine .same fun key _ => .ite (fun _ => ?_) fun _ => .same fun _ _ => ?_
  · exact .part (h _ _ _ _) fun _ _ _ _ => .done
  · exact .ite (fun _ => .read fun _ => ⟨.plainly, .plainly⟩) fun _ => h _ _ _ _

theorem property (level : Nat) (t : Tree) : Traces (Outlined flag) flag
    (o.property level t) (o.rules.property ⟨level, flag⟩ t) := by
  unfold Outlines.property Rules.property
  refine .same fun _ _ => .ite (fun _ => h _ _ _ _) fun _ => ?_
  refine .part (h.propertyKey level t) fun key text hkey _ => .same fun value _ => ?_
  obtain rfl := hkey.spell_eq
  have hfull : Traces (Outlined flag) flag
      (do return key ++ plainly ": " ++ (← o.expression level assignmentLevel value))
      (do return spell key ++ ": " ++ (← o.rules.expression ⟨level, flag⟩ assignmentLevel value)) :=
    .part (h _ _ _ _) fun _ _ _ _ => .done
  refine .ite (fun _ => ?_) fun _ => .ite (fun _ => .same fun _ _ => ?_) fun _ => ?_
  · exact .part (h.functionTail level value) fun _ _ _ _ => .done
  · exact .part (h.functionTail level value) fun _ _ _ _ => .done
  · refine .ite (fun _ => .same fun found _ => ?_) fun _ => hfull
    match found with
    | some none => exact .done
    | some (some right) => exact .part (h _ _ _ _) fun _ _ _ _ => .done
    | none => exact hfull

theorem member (level : Nat) (t : Tree) : Traces (Outlined flag) flag
    (o.member level t) (o.rules.member ⟨level, flag⟩ t) := by
  have hrest : ∀ (static mark : String) (value : Tree), Traces (Outlined flag) flag
      (do
        let key ← o.propertyKey level t
        return plainly static ++ plainly mark ++ key ++ (← o.functionTail level value))
      (do
        let key ← o.rules.propertyKey ⟨level, flag⟩ t
        return static ++ mark ++ key ++ (← o.rules.functionTail ⟨level, flag⟩ value)) :=
    fun _ _ _ => .part (h.propertyKey _ _) fun _ _ _ _ =>
      .part (h.functionTail _ _) fun _ _ _ _ => .done
  unfold Outlines.member Rules.member
  refine .same fun value _ => .ite (fun _ => hrest _ _ value) fun _ => ?_
  exact .same fun _ _ => hrest _ _ value

theorem classText (level : Nat) (t : Tree) : Traces (Outlined flag) flag
    (o.classText level t) (o.rules.classText ⟨level, flag⟩ t) := by
  unfold Outlines.classText Rules.classText
  extract_lets rest inner rest'
  have hrest : ∀ name, Traces (Outlined flag) flag (rest name) (rest' name) := by
    intro name
    dsimp -zeta only [rest, rest']
    extract_lets rest rest'
    have hrest : ∀ p s, Tells p s → Shielded flag p →
        Traces (Outlined flag) flag (rest p) (rest' s) := by
      intro p s _ _
      dsimp -zeta only [rest, rest']
      extract_lets head rest head' rest'
      have hrest : ∀ members, Traces (Outlined flag) flag (rest members) (rest' members) := by
        intro members
        have hhead : Tells head head' := inferInstance
        have hshielded : Shielded flag head := inferInstance
        refine .ite (fun _ => .pure ⟨?_, inferInstance⟩) fun _ => ?_
        · refine .congr (s := head' ++ " " ++ "\x7b\x7d") inferInstance ?_
          exact String.append_assoc
        · refine .bind (.each (h.member (level + 1))) fun ps ss hlines => ?_
          obtain ⟨_, _⟩ : Outlined flag (o.braced level "\n" ps) (o.rules.braced level "\n" ss) :=
            braced level "\n" (hlines.imp fun _ _ hp => hp.tells)
          exact .done
      exact .ite (fun _ => .same fun _ _ => .same fun members _ => hrest members) fun _ =>
        .known (hrest [])
    refine .ite (fun _ => .bind (.pure (R := Outlined flag) ⟨.nil, .nil⟩) ?_) fun _ => ?_
    · exact fun p s hp => hrest p s hp.tells hp.shielded
    · exact .part (h _ _ _ _) fun p s _ _ => hrest _ _ inferInstance inferInstance
  exact .ite (fun _ => .same fun _ _ => .same fun _ _ => hrest _) fun _ => .known (hrest "")

/-! ### Expressions -/

theorem array (level : Nat) (t : Tree) : Traces (Outlined flag) flag
    (o.array level t) (o.rules.array ⟨level, flag⟩ t) := by
  unfold Outlines.array Rules.array
  refine .same fun elements _ => .bind (.each (R := Outlined flag) fun t => ?_) ?_
  · exact .ite (fun _ => .done) fun _ => h _ _ _ _
  · intro ps ss hparts
    obtain ⟨_, _⟩ := outlined_separated ", " hparts
    let comma := if elements.getLast?.any Tree.isNull then "," else ""
    refine .pure ⟨.congr (s := "[" ++ (String.intercalate ", " ss ++ comma) ++ "]")
      inferInstance ?_, inferInstance⟩
    simp only [comma, String.append_assoc]

theorem object (level : Nat) (t : Tree) : Traces (Outlined flag) flag
    (o.object level t) (o.rules.object ⟨level, flag⟩ t) := by
  unfold Outlines.object Rules.object
  refine .same fun _ _ => .ite (fun _ => .done) fun _ => ?_
  refine .bind (.each (h.property (level + 1))) fun _ _ hlines => .pure ?_
  exact braced _ _ (hlines.imp fun _ _ hp => hp.tells)

theorem objectPattern (level : Nat) (t : Tree) : Traces (Outlined flag) flag
    (o.objectPattern level t) (o.rules.objectPattern ⟨level, flag⟩ t) := by
  unfold Outlines.objectPattern Rules.objectPattern
  refine .same fun _ _ => .bind (.each (h.property level)) fun _ _ hparts => ?_
  obtain ⟨_, _⟩ := outlined_separated ", " hparts
  exact .done

theorem templateParts (level : Nat) (quasis exprs : List Tree) : Traces (Outlined flag) flag
    (o.templateParts level quasis exprs) (o.rules.templateParts ⟨level, flag⟩ quasis exprs) := by
  induction quasis generalizing exprs with
  | nil => exact .done
  | cons quasi quasis ih =>
      cases exprs with
      | nil => exact .same fun _ _ => .part (ih []) fun _ _ _ _ => .done
      | cons expr exprs =>
          refine .same fun piece _ => .part (h _ _ _ _) fun p s _ _ => .part (ih exprs) ?_
          intro q u _ _
          refine .pure ⟨.congr (s := piece ++ (Bracket.substitution.opening ++ s ++
            Bracket.substitution.closing) ++ u) inferInstance ?_, inferInstance⟩
          simp only [Bracket.opening, Bracket.closing, String.append_assoc]

theorem template (level : Nat) (t : Tree) : Traces (Outlined flag) flag
    (o.template level t) (o.rules.template ⟨level, flag⟩ t) :=
  .same fun _ _ => .same fun _ _ => .same fun _ _ => .part (h.templateParts _ _ _) fun _ _ _ _ =>
    .done

theorem taggedTemplate (level : Nat) (t : Tree) : Traces (Outlined flag) flag
    (o.taggedTemplate level t) (o.rules.taggedTemplate ⟨level, flag⟩ t) :=
  .same fun _ _ => .part (h _ _ _ _) fun _ _ _ _ => .same fun _ _ =>
    .part (h.template _ _) fun _ _ _ _ => .done

theorem access (level : Nat) (t : Tree) : Traces (Outlined flag) flag
    (o.access level t) (o.rules.access ⟨level, flag⟩ t) := by
  unfold Outlines.access Rules.access
  refine .same fun object _ => .part (h _ _ _ _) fun p s hp _ => ?_
  obtain rfl := hp.spell_eq
  refine .ite (fun _ => .same fun _ _ => .part (h _ _ _ _) fun q u _ _ => ?_) fun _ => ?_
  · refine .pure ⟨.congr (s := (if object.isKind "Literal" && isDigits (spell p) then
      inParens (spell p) else spell p) ++ ("[" ++ u ++ "]")) inferInstance ?_, inferInstance⟩
    simp only [String.append_assoc]
  · exact .same fun _ _ => .same fun _ _ => .done

theorem callArguments (level : Nat) (t : Tree) : Traces (Outlined flag) flag
    (o.callArguments level t) (o.rules.callArguments ⟨level, flag⟩ t) :=
  .same fun _ _ => .part (h.arguments _ _) fun _ _ _ _ => .done

theorem call (level : Nat) (t : Tree) : Traces (Outlined flag) flag
    (o.call level t) (o.rules.call ⟨level, flag⟩ t) :=
  .same fun _ _ => .part (h _ _ _ _) fun _ _ _ _ => .part (h.callArguments _ _) fun _ _ _ _ =>
    .done

theorem new (level : Nat) (t : Tree) : Traces (Outlined flag) flag
    (o.new level t) (o.rules.new ⟨level, flag⟩ t) :=
  .same fun _ _ => .part (h _ _ _ _) fun _ _ _ _ => .part (h.callArguments _ _) fun _ _ _ _ =>
    .done

theorem unary (level : Nat) (t : Tree) : Traces (Outlined flag) flag
    (o.unary level t) (o.rules.unary ⟨level, flag⟩ t) := by
  unfold Outlines.unary Rules.unary
  refine .same fun _ _ => .same fun _ _ => .part (h _ _ _ _) fun p s hp _ => ?_
  obtain rfl := hp.spell_eq
  exact .ite (fun _ => .done) fun _ => .done

theorem update (level : Nat) (t : Tree) : Traces (Outlined flag) flag
    (o.update level t) (o.rules.update ⟨level, flag⟩ t) := by
  unfold Outlines.update Rules.update
  refine .same fun _ _ => .same fun _ _ => .ite (fun _ => ?_) fun _ => ?_
  · exact .part (h _ _ _ _) fun _ _ _ _ => .done
  · exact .part (h _ _ _ _) fun _ _ _ _ => .done

/-- An operator between two operands is no bare `in`, if it is not exposed. -/
theorem binary (level : Nat) (t : Tree)
    (hexposed : Rules.isExposedIn ⟨level, flag⟩ t = .ok false) : Traces (Outlined flag) flag
      (o.binary level t) (o.rules.binary ⟨level, flag⟩ t) := by
  unfold Outlines.binary Rules.binary
  refine .same fun operator hoperator => .same fun _ _ => .same fun left _ => ?_
  refine .ite (fun _ => ?_) fun _ => ?_
  · refine .part (h _ _ _ _) fun p s hp _ => .same fun _ _ => .part (h _ _ _ _) fun _ _ _ _ => ?_
    obtain rfl := hp.spell_eq
    exact .done
  · have htells : Tells (Outlines.operatorPieces t operator.inText) operator.inText := by
      unfold Outlines.operatorPieces
      split
      · rename_i hin
        simp only [Bool.and_eq_true, decide_eq_true_eq] at hin
        exact ⟨by simp [spell, Piece.spell, hin.2]⟩
      · exact .plainly
    have hshielded : Shielded flag (Outlines.operatorPieces t operator.inText) := by
      unfold Outlines.operatorPieces
      split
      · rename_i hin
        refine ⟨fun hset => ?_⟩
        simp only [Bool.and_eq_true, decide_eq_true_eq] at hin
        simp [Rules.isExposedIn, hset, hin.1, hoperator, hin.2, bind, Except.bind, pure,
          Except.pure] at hexposed
      · exact .plainly
    exact .part (h _ _ _ _) fun _ _ _ _ => .same fun _ _ => .part (h _ _ _ _) fun _ _ _ _ => .done

theorem conditional (level : Nat) (t : Tree) : Traces (Outlined flag) flag
    (o.conditional level t) (o.rules.conditional ⟨level, flag⟩ t) :=
  .same fun _ _ => .part (h _ _ _ _) fun _ _ _ _ => .same fun _ _ =>
    .part (h _ _ _ _) fun _ _ _ _ => .same fun _ _ => .part (h _ _ _ _) fun _ _ _ _ => .done

theorem assignment (level : Nat) (t : Tree) : Traces (Outlined flag) flag
    (o.assignment level t) (o.rules.assignment ⟨level, flag⟩ t) :=
  .same fun _ _ => .part (h _ _ _ _) fun _ _ _ _ => .same fun _ _ =>
    .part (h _ _ _ _) fun _ _ _ _ => .same fun _ _ => .done

theorem withDefault (level : Nat) (t : Tree) : Traces (Outlined flag) flag
    (o.withDefault level t) (o.rules.withDefault ⟨level, flag⟩ t) :=
  .same fun _ _ => .part (h _ _ _ _) fun _ _ _ _ => .same fun _ _ =>
    .part (h _ _ _ _) fun _ _ _ _ => .done

theorem yield (level : Nat) (t : Tree) : Traces (Outlined flag) flag
    (o.yield level t) (o.rules.yield ⟨level, flag⟩ t) :=
  .ite (fun _ => .done) fun _ => .part (h _ _ _ _) fun _ _ _ _ => .done

theorem sequence (level : Nat) (t : Tree) : Traces (Outlined flag) flag
    (o.sequence level t) (o.rules.sequence ⟨level, flag⟩ t) :=
  .same fun _ _ => .same fun _ _ => .bind (.each (h _ _ _)) fun _ _ hparts =>
    .pure (outlined_separated _ hparts)

theorem spread (level : Nat) (t : Tree) : Traces (Outlined flag) flag
    (o.spread level t) (o.rules.spread ⟨level, flag⟩ t) :=
  .same fun _ _ => .part (h _ _ _ _) fun _ _ _ _ => .done

theorem await (level : Nat) (t : Tree) : Traces (Outlined flag) flag
    (o.await level t) (o.rules.await ⟨level, flag⟩ t) :=
  .same fun _ _ => .part (h _ _ _ _) fun _ _ _ _ => .done

omit h in
theorem leaf (print : Tree → Print) (level : Nat) (t : Tree) :
    Traces (Outlined flag) flag (Outlines.leaf print level t) (print t) :=
  .read fun _ => ⟨.plainly, .plainly⟩

/-- The forms of a kind of expression, if there are any, trace the printer where the
expression is no exposed `in`. -/
theorem expressionForm (kind : String) :
    Option.Rel (fun outline print => ∀ flag level t,
      Rules.isExposedIn ⟨level, flag⟩ t = .ok false →
        Traces (Outlined flag) flag (outline level t) (print ⟨level, flag⟩ t))
      (o.expressionForm? kind) (o.rules.expressionForm? kind) := by
  unfold Outlines.expressionForm? Rules.expressionForm?
  split
  · exact .some fun _ level t _ => leaf _ level t
  · exact .some fun _ level t _ => leaf _ level t
  · exact .some fun _ level t _ => leaf _ level t
  · exact .some fun _ level t _ => leaf _ level t
  · exact .some fun _ level t _ => leaf _ level t
  · exact .some fun _ level t _ => h.array level t
  · exact .some fun _ level t _ => h.array level t
  · exact .some fun _ level t _ => h.object level t
  · exact .some fun _ level t _ => h.objectPattern level t
  · exact .some fun _ level t _ => h.function level t
  · exact .some fun _ level t _ => h.arrow level t
  · exact .some fun _ level t _ => h.classText level t
  · exact .some fun _ level t _ => h.template level t
  · exact .some fun _ level t _ => h.taggedTemplate level t
  · exact .some fun _ level t _ => h.access level t
  · exact .some fun _ level t _ => h.call level t
  · exact .some fun _ level t _ => h.new level t
  · exact .some fun _ level t _ => h.sequence level t
  · exact .some fun _ level t _ => h.unary level t
  · exact .some fun _ level t _ => h.update level t
  · exact .some fun _ level t hexposed => h.binary level t hexposed
  · exact .some fun _ level t hexposed => h.binary level t hexposed
  · exact .some fun _ level t _ => h.conditional level t
  · exact .some fun _ level t _ => h.assignment level t
  · exact .some fun _ level t _ => h.withDefault level t
  · exact .some fun _ level t _ => h.spread level t
  · exact .some fun _ level t _ => h.spread level t
  · exact .some fun _ level t _ => h.yield level t
  · exact .some fun _ level t _ => h.await level t
  · exact .some fun _ level t _ => leaf _ level t
  · -- Neither table has a form for any other kind.
    try split
    all_goals first | exact .none | contradiction

/-- **Expressions at their places trace the printer**: an `in` that is exposed stands in
parentheses, in which the flag is cleared. -/
theorem expressionAt (level minimum : Nat) (t : Tree) : Traces (Outlined flag) flag
    (o.expressionAt level minimum t) (o.rules.expressionAt ⟨level, flag⟩ minimum t) := by
  unfold Outlines.expressionAt Rules.expressionAt
  refine .same fun kind _ => ?_
  have hforms := h.expressionForm kind
  revert hforms
  generalize o.expressionForm? kind = outline?, o.rules.expressionForm? kind = print?
  rintro (⟨hform⟩ | _)
  · refine .same fun strength _ => .same fun exposed hexposed => .ite (fun _ => ?_) fun hplain => ?_
    · have hclear : Rules.isExposedIn ⟨level, false⟩ t = .ok false := rfl
      refine .bind (.withFlag (hform false level t hclear)) fun _ _ hpieces => .pure ?_
      have := hpieces.tells
      exact ⟨inferInstance, inferInstance⟩
    · obtain ⟨-, rfl⟩ : minimum ≤ strength ∧ exposed = false := by simpa using hplain
      exact hform flag level t hexposed
  · cases shownKind t with
    | error e => rfl
    | ok shown => rfl

/-! ### The start of a loop -/

theorem declarator (level : Nat) (t : Tree) : Traces (Outlined flag) flag
    (o.declarator level t) (o.rules.declarator ⟨level, flag⟩ t) :=
  .same fun _ _ => .part (h _ _ _ _) fun _ _ _ _ => .ite (fun _ => .done) fun _ =>
    .part (h _ _ _ _) fun _ _ _ _ => .done

theorem declaration (level : Nat) (t : Tree) : Traces (Outlined flag) flag
    (o.declaration level t) (o.rules.declaration ⟨level, flag⟩ t) := by
  unfold Outlines.declaration Rules.declaration
  refine .same fun _ _ => .same fun _ _ => .bind (.each (h.declarator level)) fun _ _ hparts => ?_
  obtain ⟨_, _⟩ := outlined_separated ", " hparts
  exact .same fun _ _ => .done

/-- Whatever the flag was before, it is set for the start of a loop, and put back. -/
theorem loopInit (level : Nat) (init : Tree) :
    Traces (Outlined true) flag (o.loopInit level init) (o.rules.loopInit level init) := by
  unfold Outlines.loopInit Rules.loopInit
  refine .ite (fun _ => .pure ⟨.nil, .nil⟩) fun _ => .same fun _ _ => .ite (fun _ => ?_) fun _ => ?_
  · exact (h.declaration level init).withFlag
  · exact (h true level sequenceLevel init).withFlag

end Outlines.Trace

/-- The outlines for trees of every depth trace the printer, by induction on the depth. -/
theorem outlines_trace (indent : String) (depth : Nat) :
    (outlines indent depth).rules = rules indent depth ∧ (outlines indent depth).Trace := by
  induction depth with
  | zero => exact ⟨rfl, fun _ _ _ _ => rfl⟩
  | succ depth ih =>
      refine ⟨rfl, fun flag level minimum t => ?_⟩
      have hat : Traces (Outlined flag) flag ((outlines indent depth).expressionAt level minimum t)
          ((outlines indent depth).rules.expressionAt ⟨level, flag⟩ minimum t) :=
        ih.2.expressionAt level minimum t
      rw [ih.1] at hat
      exact hat

end NameRecovery.Printer
