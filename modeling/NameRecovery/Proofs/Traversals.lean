import NameRecovery.Proofs.Grammar.Binding
import NameRecovery.Proofs.Grammar.Statement

/-!
# Two traversals, with a stack and by recursion

A walk goes through all nodes of a tree, the reading of a pattern through the patterns inside it.
Both keep a stack of what is left, both come to an end with what the recursion lists, and on a
pattern the two agree on its names.

* `Tree.binds_of_parse` — the names that a node of a parsed program binds;
* `Tree.traversals_recurse` — both traversals, on all trees and on all patterns.
-/

namespace NameRecovery.Tree

open Grammar

/-- The names that a node of a parsed program binds can be read in each of the ways. -/
theorem binds_of_parse {goal : Goal} {text : String} {program : Tree}
    (h : parse goal text = .ok program) {visit : Visit} (hvisit : visit ∈ program.visits) :
    ∃ names, visit.node.Binds names := by
  have hformed : program.isFormed = true := (Bool.and_eq_true_iff.1 (isProgram_of_parse h)).2
  exact exists_binds (isFormed_visit hformed _ visit hvisit) (isNode_visit hvisit)

/-- **The traversals with a stack are those by recursion.**  A walk goes through every tree in
document order.  The names that a formed node binds, so any node of a parsed program, are the same
with a stack and by recursion; if it is a pattern, they are those of the identifiers that a walk
meets neither in the key of a property nor in a default.  Where the grammar asks for a pattern it
yields one. -/
theorem traversals_recurse :
    (∀ kind fields, Walked (.node kind fields)) ∧
    (∀ p : Tree, p.isFormed = true → p.isNode = true → ∃ names, p.Binds names) ∧
    (∀ goal text program, parse goal text = .ok program →
      ∀ visit ∈ program.visits, ∃ names, visit.node.Binds names) ∧
    ∀ budget, Bindings (Grammar.rules budget) :=
  ⟨walked, fun _ => exists_binds, fun _ _ _ h _ hvisit => binds_of_parse h hvisit, rules_bindings⟩

/-- The pattern `{ a: [b, , c = d], [e.f]: g, ...h }`. -/
def nestedPattern : Tree :=
  .node "ObjectPattern" [("properties", .list [
    patternProperty (identifier "a") (.node "ArrayPattern" [("elements", .list [
      identifier "b", .null,
      .node "AssignmentPattern" [("left", identifier "c"), ("right", identifier "d")]])])
      false false,
    patternProperty (.node "MemberExpression" [("object", identifier "e"),
      ("property", identifier "f"), ("computed", .bool false)]) (identifier "g") true false,
    .node "RestElement" [("argument", identifier "h")]])]

theorem nestedPattern_isPattern : nestedPattern.IsPattern := by
  refine .object (List.forall_mem_cons.2 ⟨?_, List.forall_mem_cons.2 ⟨.name "g",
    List.forall_mem_singleton.2 (.rest (.name "h"))⟩⟩)
  exact .array (List.forall_mem_cons.2 ⟨fun _ => .name "b", List.forall_mem_cons.2
    ⟨fun hhole => absurd hhole (by decide),
      List.forall_mem_singleton.2 fun _ => .withDefault (.name "c")⟩⟩)

/-- A statement of an unknown kind, with a name in it. -/
def fancyStatement : Tree :=
  .node "FancyStatement" [("target", identifier "hidden")]

/-- A node of an unknown kind is walked through as well, and a key, a computed key and a default
have identifiers that are not bound. -/
theorem traversals_recurse_nested :
    Walked fancyStatement ∧ (fancyStatement.visits.map Visit.path).Nodup ∧
    fancyStatement.identifierNames = .ok ["hidden"] ∧
    nestedPattern.Binds ["b", "c", "g", "h"] ∧
    (∃ visits, nestedPattern.walk = .ok visits ∧
      namesOfIdentifiers visits = .ok ["a", "b", "c", "d", "e", "f", "g", "h"] ∧
      namesOfIdentifiers (bindingSide visits) = .ok ["b", "c", "g", "h"]) ∧
    ∃ program, parse .script "var [x = 1, , ...rest] = list;" = .ok program ∧
      ∀ visit ∈ program.visits, ∃ names, visit.node.Binds names := by
  obtain ⟨hwalk, hbinds, hparsed, -⟩ := traversals_recurse
  have hwalked : Walked fancyStatement := hwalk _ _
  have hkeyed : fancyStatement.IsKeyed := isKeyed_of_isProper (by decide +kernel)
  obtain ⟨names, hnames⟩ := hbinds nestedPattern (by decide +kernel) rfl
  have hread : nestedPattern.boundNames = .ok ["b", "c", "g", "h"] := by decide +kernel
  obtain rfl : names = ["b", "c", "g", "h"] :=
    Except.ok.inj (hnames.boundNames_eq.symm.trans hread)
  refine ⟨hwalked, hwalked.once hkeyed, by decide +kernel, hnames, ?_, ?_⟩
  · obtain ⟨visits, hvisits, hmet⟩ := hnames.walk_eq nestedPattern_isPattern
    have hall : nestedPattern.identifierNames =
        .ok ["a", "b", "c", "d", "e", "f", "g", "h"] := by decide +kernel
    rw [identifierNames, hvisits] at hall
    exact ⟨visits, hvisits, hall, hmet⟩
  · have hparse : (parse .script "var [x = 1, , ...rest] = list;").toOption.isSome = true := by
      decide +kernel
    obtain ⟨program, hprogram⟩ := Option.isSome_iff_exists.1 hparse
    exact ⟨program, ok_of_toOption hprogram, hparsed _ _ _ (ok_of_toOption hprogram)⟩

end NameRecovery.Tree
