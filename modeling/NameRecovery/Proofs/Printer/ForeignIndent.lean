import NameRecovery.Config
import NameRecovery.Proofs.Grammar.Bare
import NameRecovery.Proofs.Printer.Indentation

/-!
# Indentations the parser does not know

An indentation may consist of any blanks of free-form text.  Some of them are no white
space of a program, and a text indented with them is rejected, whatever becomes of the
text with the default indentation.

* `SameOutcome` — two texts are parsed to the same tree, or both rejected;
* `foreign_indent_outcome` — when that is so of a text with such an indentation.
-/

namespace NameRecovery

open Source Grammar

/-- Have both texts the same tree, or none? -/
def SameOutcome (x y : Except SourceError Tree) : Prop :=
  match x, y with
  | .ok t, .ok t' => t = t'
  | .error _, .error _ => True
  | _, _ => False

theorem SameOutcome.refl (x : Except SourceError Tree) : SameOutcome x x := by
  cases x with
  | ok t => exact rfl
  | error e => exact trivial

theorem sameOutcome_error {e : SourceError} {y : Except SourceError Tree} :
    SameOutcome (.error e) y ↔ ∃ e', y = .error e' := by
  cases y with
  | ok t => exact ⟨False.elim, nofun⟩
  | error e' => exact ⟨fun _ => ⟨e', rfl⟩, fun _ => trivial⟩

/-- A bare text that shows an indentation with a foreign blank is rejected. -/
theorem rejected_of_indent (goal : Goal) {indent text : String}
    (hforeign : indent.toList.any isForeignBlank = true) (hbare : IsBare text.toList)
    (hshown : indent.toList <:+: text.toList) : ∃ e, parse goal text = .error e := by
  cases hparse : parse goal text with
  | error e => exact ⟨e, rfl⟩
  | ok t =>
      obtain ⟨c, hc, hblank⟩ := List.any_eq_true.1 hforeign
      rw [no_foreign_of_parse hbare hparse c (hshown.subset hc)] at hblank
      cases hblank

/-- With a foreign blank in its indentation, a text without quotes, backticks and slashes has
the same outcome as with the default indentation only if nothing in it is indented, or if
that one is rejected, too. -/
theorem foreign_indent_outcome (goal : Goal) (t : Tree) (indent text plain : String)
    (hforeign : indent.toList.any isForeignBlank = true) (htext : t.render indent = .ok text)
    (hplain : t.render defaultIndent = .ok plain) (hbare : IsBare text.toList) :
    SameOutcome (parse goal text) (parse goal plain) ↔
      text = plain ∨ ∃ e, parse goal plain = .error e := by
  rcases (Printer.render_alike indent defaultIndent t text plain htext hplain).alike with
    rfl | ⟨hshown, -⟩
  · exact ⟨fun _ => .inl rfl, fun _ => .refl _⟩
  · obtain ⟨e, hrejected⟩ := rejected_of_indent goal hforeign hbare hshown
    constructor
    · intro hsame
      rw [hrejected, sameOutcome_error] at hsame
      exact .inr hsame
    · rintro (rfl | herror)
      · exact .refl _
      · rw [hrejected, sameOutcome_error]
        exact herror

/-- The tree of an accepted script and its texts with two indentations. -/
def printedTwice? (source indent indent' : String) : Option (Tree × String × String) := do
  let t ← (parse .script source).toOption
  return (t, ← (t.render indent).toOption, ← (t.render indent').toOption)

theorem printedTwice?_eq_some {source indent indent' text text' : String}
    (h : (printedTwice? source indent indent').map Prod.snd = some (text, text')) :
    ∃ t, parse .script source = .ok t ∧ t.render indent = .ok text ∧
      t.render indent' = .ok text' := by
  obtain ⟨⟨t, _, _⟩, hprinted, heq⟩ := Option.map_eq_some_iff.1 h
  cases heq
  obtain ⟨t, ht, hprinted⟩ := Option.bind_eq_some_iff.1 hprinted
  obtain ⟨text, htext, hprinted⟩ := Option.bind_eq_some_iff.1 hprinted
  obtain ⟨text', htext', hprinted⟩ := Option.bind_eq_some_iff.1 hprinted
  cases hprinted
  exact ⟨t, ok_of_toOption ht, ok_of_toOption htext, ok_of_toOption htext'⟩

set_option maxRecDepth 100000 in
/-- A block with a statement, indented with an information separator and with two blanks. -/
theorem block_outcome_differs :
    ∃ t text plain, parse .script "\x7b a \x7d" = .ok t ∧ t.render "\x1c" = .ok text ∧
      t.render defaultIndent = .ok plain ∧
      ¬ SameOutcome (parse .script text) (parse .script plain) := by
  have hprinted : (printedTwice? "\x7b a \x7d" "\x1c" defaultIndent).map Prod.snd =
      some ("\x7b\n\x1ca;\n\x7d\n", "\x7b\n  a;\n\x7d\n") := by decide +kernel
  have haccepted : (parse .script "\x7b\n  a;\n\x7d\n").toOption.isSome = true := by decide +kernel
  have hforeign : "\x1c".toList.any isForeignBlank = true := by decide +kernel
  have hbare : IsBare "\x7b\n\x1ca;\n\x7d\n".toList := by decide +kernel
  obtain ⟨t, ht, htext, hplain⟩ := printedTwice?_eq_some hprinted
  refine ⟨t, _, _, ht, htext, hplain, fun hsame => ?_⟩
  rcases (foreign_indent_outcome .script t _ _ _ hforeign htext hplain hbare).1 hsame with
    heq | ⟨e, herror⟩
  · exact absurd heq (by decide +kernel)
  · rw [herror] at haccepted
    cases haccepted

set_option maxRecDepth 100000 in
/-- A block with a statement, indented with an information separator: the indentation is
acceptable, the text is rejected, and the one with two blanks is not. -/
theorem accepted_indent_rejected :
    Config.checkIndent (.text "\x1c") = .ok "\x1c" ∧
      ∃ t text plain, parse .script "\x7b a \x7d" = .ok t ∧ t.render "\x1c" = .ok text ∧
        t.render defaultIndent = .ok plain ∧ (parse .script text).toOption.isNone ∧
        (parse .script plain).toOption.isSome := by
  refine ⟨rfl, ?_⟩
  have hprinted : (printedTwice? "\x7b a \x7d" "\x1c" defaultIndent).map Prod.snd =
      some ("\x7b\n\x1ca;\n\x7d\n", "\x7b\n  a;\n\x7d\n") := by decide +kernel
  obtain ⟨t, ht, htext, hplain⟩ := printedTwice?_eq_some hprinted
  exact ⟨t, _, _, ht, htext, hplain, by decide +kernel, by decide +kernel⟩

end NameRecovery
