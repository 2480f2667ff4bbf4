import NameRecovery.Tree.Visit

/-!
# Edits of names

Edits give new names to some nodes, found by their paths; every other
part of the tree stays as it is.  Both the resolution of shadowed bindings and
the renaming after a table end in such edits.
-/

namespace NameRecovery

/-- New names by path. -/
abbrev Edits := List (Path × String)

namespace Tree

/-- Fields with the `name` replaced, if there is a new one. -/
def withName : Option String → List (String × Tree) → List (String × Tree)
  | none, fields => fields
  | some name, fields =>
    fields.map fun field => if field.1 = "name" then ("name", .text name) else field

mutual

/-- A node with the names below it replaced as `new` says; any other value as it
is. -/
def editWith (new : Path → Option String) : Tree → Tree
  | .node kind fields => .node kind (withName (new []) (editFields new fields))
  | t => t

/-- The fields of a node with the names below it replaced. -/
def editFields (new : Path → Option String) : List (String × Tree) → List (String × Tree)
  | [] => []
  | (key, .list items) :: rest =>
    (key, .list (editItems (fun index path => new (⟨key, index⟩ :: path)) 0 items)) ::
      editFields new rest
  | (key, value) :: rest =>
    (key, editWith (fun path => new (⟨key, 0⟩ :: path)) value) :: editFields new rest

/-- The items of a list with the names below them replaced. -/
def editItems (new : Nat → Path → Option String) : Nat → List Tree → List Tree
  | _, [] => []
  | index, item :: rest => editWith (new index) item :: editItems new (index + 1) rest

end

/-- The tree after edits. -/
def edit (edits : Edits) (t : Tree) : Tree :=
  if edits.isEmpty then t else t.editWith fun path => edits.lookup path

end Tree
end NameRecovery
