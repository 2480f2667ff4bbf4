import NameRecovery.Text.Case
import NameRecovery.Text.NameChar
import NameRecovery.Text.Scan
import NameRecovery.Tree.Binding

/-!
# The context of short names

A walk in document order remembers the last meaningful name: one that is neither
short nor on the stop list.  Every short name met is credited to it.  The name a
short one is credited to most often becomes its label.

* `Profile.observe` — one step of the walk;
* `profile` — the histogram of a whole tree;
* `selectLabelsBy`, `selectLabels` — the labels of one short name;
* `longNames` — the new names made of the labels.
-/

namespace NameRecovery

/-- How often each meaningful name was the context of a short one. -/
abbrev Row := Table Int

/-- The contexts of every short name. -/
abbrev Histogram := Table Row

/-- Names that say nothing about their neighbours. -/
def defaultStoplist : List String := [
  "function", "class", "type", "name", "key", "value", "get", "set", "let", "var", "const",
  "generator", "await", "for"]

/-- Is a name short: one or two characters and perhaps a number?  One line feed at
its end does not count. -/
def isShort (name : String) : Bool :=
  let cs := name.toList
  let body := if cs.getLast? = some '\n' then cs.dropLast else cs
  Text.isNumberedName 2 body

/-! ## The walk -/

/-- What a walk has seen so far. -/
structure Profile where
  /-- The last meaningful name. -/
  last : Option String := none
  /-- The contexts of the short names. -/
  histogram : Histogram := []

/-- One more occurrence of a context in a row. -/
def Row.credit (row : Row) (context : String) : Row :=
  row.put context ((row.find? context).getD 0 + 1)

/-- One more occurrence of a short name in a context. -/
def Histogram.credit (histogram : Histogram) (name context : String) : Histogram :=
  histogram.put name (Row.credit ((histogram.find? name).getD []) context)

/-- Meet a name, which stands for a binding or not. -/
def Profile.observe (stoplist : List String) (profile : Profile) (name : String)
    (isBinding : Bool) : Profile :=
  if !isShort name && !stoplist.contains name then { profile with last := some name }
  else
    match profile.last with
    | none => profile
    | some context =>
      if isBinding then
        { profile with histogram := Histogram.credit profile.histogram name context }
      else profile

/-- Meet the identifiers among the visited nodes. -/
def Profile.observeAll (stoplist : List String) (profile : Profile) :
    List Visit → Except Fault Profile
  | [] => .ok profile
  | visit :: rest => do
    if visit.isIdentifier then
      let name ← visit.node.needText "name"
      (profile.observe stoplist name visit.isBinding).observeAll stoplist rest
    else profile.observeAll stoplist rest

/-- The contexts of the short names of a tree. -/
def profile (stoplist : List String) (t : Tree) : Except Fault Histogram := do
  return (← Profile.observeAll stoplist {} (← t.walk)).histogram

/-! ## Labels -/

/-- The items with the greatest measure, in order. -/
def greatest {α : Type} (measure : α → Int) (items : List α) : List α :=
  items.filter fun item => items.all fun other => measure other ≤ measure item

/-- The items that pass a test, or all of them if none does. -/
def prefer {α : Type} (test : α → Bool) (items : List α) : List α :=
  if items.any test then items.filter test else items

/-- The labels of a short name: its most frequent contexts, of these rather those
that lower-casing changes, of these the longest, and of these rather those without
the separator. -/
def selectLabelsBy (lower : String → String) (separator : String) (row : Row) : List String :=
  let frequent := (greatest Prod.snd row).map Prod.fst
  let capital := prefer (fun label => label != lower label) frequent
  let longest := greatest (fun label => (label.length : Int)) capital
  prefer (fun label => !Text.occursIn separator.toList label.toList) longest

/-- The labels of a short name, with those that have a capital letter before the
others. -/
def selectLabels (separator : String) (row : Row) : List String :=
  selectLabelsBy Text.lower separator row

/-- The labels of every short name. -/
def deriveLabels (separator : String) (histogram : Histogram) : Table (List String) :=
  histogram.map fun entry => (entry.1, selectLabels separator entry.2)

/-- The new names made of labels: the labels and the old name, with separators
between them.  Where the declared names are known, no other name gets a new
one. -/
def longNames (separator : String) (labels : Table (List String))
    (declared : Option (List String)) : Table String :=
  labels.filterMap fun entry =>
    let isDeclared := match declared with
      | some names => names.contains entry.1
      | none => true
    if entry.2.isEmpty || !isDeclared then none
    else some (entry.1, String.intercalate separator entry.2 ++ separator ++ entry.1)

end NameRecovery
