import NameRecovery.Text.Blank
import NameRecovery.Text.NameChar
import NameRecovery.Text.Scan

/-!
# Names for anonymous functions

An anonymous function that is assigned to a name, or is the value of a property,
gets that name behind a mark: `x = function (` becomes `x = function $x(`.
-/

namespace NameRecovery.FunctionNames

/-- A name, a mark and the head of an anonymous function; the name is what is
found. -/
def head? (mark : Char) : Text.Recogniser (List Char) := fun cs => do
  let name := cs.takeWhile Text.isNameChar
  if name.head?.any Text.isNameStart then
    let rest ← Text.dropExact [mark] (Text.trimStart (cs.drop name.length))
    let rest ← Text.dropExact "function".toList (Text.trimStart rest)
    let rest ← Text.dropExact ['('] (Text.trimStart rest)
    return (name, cs.length - rest.length)
  else none

/-- The text with a name for every function behind a name and the mark; `between`
is what then stands between the two. -/
def nameBehind (mark : Char) (between : String) (sigil : String) (cs : List Char) : List Char :=
  Text.replaceAll (head? mark)
    (fun name => name ++ between.toList ++ "function ".toList ++ sigil.toList ++ name ++ ['(']) cs

/-- The text with names for the functions that are assigned, and for those that are
values of properties. -/
def nameAll (sigil text : String) : String :=
  String.ofList (nameBehind ':' ": " sigil (nameBehind '=' " = " sigil text.toList))

end NameRecovery.FunctionNames
