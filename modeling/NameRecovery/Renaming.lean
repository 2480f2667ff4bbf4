import NameRecovery.Tree.Binding
import NameRecovery.Tree.Edit

/-!
# Renaming after a table

All entries of a table of new names are applied in one walk over a tree: an
identifier that stands for a binding gets the new name of its old one.  Property
keys, member names and labels keep their spelling.
-/

namespace NameRecovery

/-- The new name an identifier gets, if it gets one. -/
def Visit.newName (renames : Table String) (visit : Visit) : Except Fault (Option String) := do
  match ← visit.node.need "name" with
  | .text name => return if visit.isBinding then renames.find? name else none
  | _ => return none

/-- The new names among the visited nodes, up to an identifier without a name. -/
def newNames (renames : Table String) : List Visit → Edits × Except Fault Unit
  | [] => ([], .ok ())
  | visit :: rest =>
    if visit.isIdentifier then
      match visit.newName renames with
      | .error fault => ([], .error fault)
      | .ok none => newNames renames rest
      | .ok (some name) =>
        let (edits, outcome) := newNames renames rest
        ((visit.path, name) :: edits, outcome)
    else newNames renames rest

/-- A tree after its bindings were renamed, and the number of identifiers that
changed.  Those met before an identifier without a name are renamed all the
same. -/
def Tree.rename (renames : Table String) (t : Tree) : Tree × Except Fault Nat :=
  if renames.isEmpty then (t, .ok 0)
  else
    match t.walk with
    | .error fault => (t, .error fault)
    | .ok visits =>
      let (edits, outcome) := newNames renames visits
      (t.edit edits, outcome.map fun _ => edits.length)

end NameRecovery
