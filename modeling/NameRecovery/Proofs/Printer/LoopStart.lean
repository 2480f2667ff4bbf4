import NameRecovery.Proofs.Grammar.Yields
import NameRecovery.Proofs.Printer.Gives
import NameRecovery.Proofs.Printer.Trace

/-!
# The start of a counted loop

In the first part of the head of a `for` loop a bare `in` would make it a loop over names.
Whatever expression or declaration stands there, every `in` operator that is printed for it
stands in brackets that are opened there, too.

* `StartsLoop` — what printing the start of a loop does, from whichever flag;
* `loop_start_shielded` — it does so in every loop that is printed.
-/

namespace NameRecovery.Printer

/-- What printing the start of a loop does, from whichever flag. -/
structure StartsLoop (o : Outlines) (level : Nat) (init : Tree) (text : String) : Prop where
  /-- It makes the text, in which every `in` operator and every statement stands in brackets,
  and puts the flag back. -/
  shielded : ∀ flag, ∃ pieces, (o.loopInit level init).run flag = .ok (pieces, flag) ∧
    spell pieces = text ∧ ∀ d ∈ depths 0 pieces, 0 < d
  /-- What is printed next is printed as if the loop had not been started. -/
  next_eq : ∀ flag level' minimum t text',
    o.rules.expression ⟨level', flag⟩ minimum t = .ok text' → ∃ pieces,
      (do let _ ← o.loopInit level init; o.expression level' minimum t).run flag =
        .ok (pieces, flag) ∧ spell pieces = text'

theorem Outlines.Trace.startsLoop {o : Outlines} (h : o.Trace) {level : Nat} {init : Tree}
    {text : String} (hprints : o.rules.loopInit level init = .ok text) :
    StartsLoop o level init text where
  shielded := by
    intro flag
    have htrace : Traces (Outlined true) flag (o.loopInit level init)
        (o.rules.loopInit level init) := h.loopInit level init
    rw [hprints] at htrace
    obtain ⟨pieces, hrun, htells, hshielded⟩ := htrace
    exact ⟨pieces, hrun, htells.spell_eq, hshielded.pos rfl⟩
  next_eq := by
    intro flag level' minimum t text' hnext
    have hstart : Traces (Outlined true) flag (o.loopInit level init)
        (o.rules.loopInit level init) := h.loopInit level init
    have htrace := hstart.bind fun _ _ _ => h flag level' minimum t
    rw [hprints, hnext] at htrace
    obtain ⟨pieces, hrun, htells, -⟩ := htrace
    exact ⟨pieces, hrun, htells.spell_eq⟩

/-- What a counted loop is printed as. -/
theorem forStatement_gives (r : Rules) (level : Nat) (t : Tree) :
    Gives (r.forStatement level t) fun text => ∃ init test update body,
      r.loopInit level (t.get "init") = .ok init ∧
        text = "for (" ++ init ++ ";" ++ test ++ ";" ++ update ++ ") " ++ body := by
  unfold Rules.forStatement
  refine .bindEq fun init hinit => .skip fun test => .skip fun update => .skip fun body => ?_
  exact .pure ⟨init, test, update, body, hinit, rfl⟩

/-- **The start of a counted loop has no bare `in`**, in every loop that is printed, however
deep it stands and whatever its first part is; and printing that part leaves the flag as it
was. -/
theorem loop_start_shielded {indent text : String} {depth level : Nat} {t : Tree}
    (hloop : t.isKind "ForStatement" = true)
    (hprints : (rules indent (depth + 1)).statement level t = .ok text) :
    ∃ init test update body, (rules indent depth).loopInit level (t.get "init") = .ok init ∧
      text = "for (" ++ init ++ ";" ++ test ++ ";" ++ update ++ ") " ++ body ∧
        StartsLoop (outlines indent depth) level (t.get "init") init := by
  obtain ⟨hrules, htrace⟩ := outlines_trace indent depth
  have hform : (rules indent depth).forStatement level t = .ok text := by
    cases t with
    | node kind fields =>
        obtain rfl : kind = "ForStatement" := by simpa [Tree.isKind, Tree.kind?] using hloop
        exact hprints
    | _ => cases hloop
  obtain ⟨init, test, update, body, hinit, htext⟩ := forStatement_gives _ level t text hform
  refine ⟨init, test, update, body, hinit, htext, htrace.startsLoop ?_⟩
  rw [hrules]
  exact hinit

/-- The question whether an object has a property. -/
def inNode (left right : String) : Tree :=
  .node "BinaryExpression" [("operator", .text "in"), ("left", Grammar.identifier left),
    ("right", Grammar.identifier right)]

/-- A loop that starts with a function: its default value and its body use `in`. -/
def inLoop : Tree :=
  .node "ForStatement" [
    ("init", .node "ArrowFunctionExpression" [
      ("params", .list [.node "AssignmentPattern"
        [("left", Grammar.identifier "p"), ("right", inNode "a" "b")]]),
      ("body", inNode "c" "d")]),
    ("body", .node "EmptyStatement" [])]

/-- The `in` that stands in parentheses anyway is protected, too. -/
theorem loop_start_shielded_arrow :
    (rules "  " 9).statement 0 inLoop = .ok "for ((p = (a in b)) => (c in d);;) ;" ∧
      ∃ init, StartsLoop (outlines "  " 8) 0 (inLoop.get "init") init := by
  have hprints : (rules "  " 9).statement 0 inLoop =
      .ok "for ((p = (a in b)) => (c in d);;) ;" := ok_of_toOption (by decide +kernel)
  obtain ⟨init, -, -, -, -, -, hstarts⟩ := loop_start_shielded rfl hprints
  exact ⟨hprints, init, hstarts⟩

end NameRecovery.Printer
