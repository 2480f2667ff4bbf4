import NameRecovery.Proofs.Grammar.Statement
import NameRecovery.Proofs.Scope.Announced
import NameRecovery.Proofs.Scope.Run
import NameRecovery.Proofs.Scope.Separation

/-!
# The interface of a module under renaming

A module is known to others by the names it exports and by the names it takes from them.
Most of these stand where an identifier names no binding, and a renaming passes them by.
Two do not: the names that an exported declaration binds, and the names of another module
in an `export … from` list.  The interface survives a renaming exactly if it leaves these
*exposed* names alone.

* `Tree.exports`, `Tree.links` — the names a module exports, and those it refers to in
  others;
* `Tree.exposed` — the names among them that a renaming reaches;
* `rename_keeps_interface_iff` — what a renaming of declared names does to the interface;
* `rename_changes_interface` — a module whose interface changes.
-/

namespace NameRecovery

/-- A name in the interface of a module. -/
structure Entry where
  /-- The other module it belongs to, as it is spelled; none if it is exported. -/
  source : Option String
  /-- The name. -/
  name : String
  /-- Does it stand where an identifier names a binding? -/
  isBinding : Bool

/-- The entry after the bindings of the module were renamed. -/
def Entry.rename (f : String → String) (e : Entry) : Entry :=
  if e.isBinding then { e with name := f e.name } else e

namespace Tree

/-! ## Reading interfaces -/

/-- The names that an exported declaration binds. -/
def bindingsOf (declaration : Tree) : Except Fault (List String) := do
  match declaration.kind? with
  | some "VariableDeclaration" =>
    declaratorNames (← (← declaration.need "declarations").listed)
  | some "FunctionDeclaration" | some "ClassDeclaration" => Scope.ownNames declaration
  | _ => return []

/-- The module that a node names, as it is spelled. -/
def sourceOf (t : Tree) : Option String :=
  ((t.get "source").get "raw").text?

/-- What is exported by one specifier. -/
def exportedAs (specifier : Tree) : Except Fault Entry := do
  if specifier.isKind "ExportDefaultSpecifier" then
    return ⟨none, ← specifier.nameIn "local", true⟩
  else return ⟨none, ← specifier.nameIn "exported", false⟩

/-- What one specifier takes from another module to export it. -/
def reexportedAs (source : Option String) (specifier : Tree) : Except Fault Entry := do
  if specifier.isKind "ExportDefaultSpecifier" then return ⟨source, "default", false⟩
  else return ⟨source, ← specifier.nameIn "local", true⟩

/-- What one specifier takes from another module. -/
def importedAs (source : Option String) (specifier : Tree) : Except Fault Entry := do
  if specifier.isKind "ImportSpecifier" then
    return ⟨source, ← specifier.nameIn "imported", false⟩
  else if specifier.isKind "ImportDefaultSpecifier" then return ⟨source, "default", false⟩
  else return ⟨source, "*", false⟩

/-- The entries of several specifiers. -/
def entriesOf (read : Tree → Except Fault Entry) : List Tree → Except Fault (List Entry)
  | [] => .ok []
  | specifier :: rest => do
    let entry ← read specifier
    return entry :: (← entriesOf read rest)

/-- What one node exports. -/
def exportsOf (t : Tree) : Except Fault (List Entry) := do
  match t.kind? with
  | some "ExportNamedDeclaration" =>
    let bound ← bindingsOf (t.get "declaration")
    let specified ← (t.get "specifiers").items >>= entriesOf exportedAs
    return bound.map (fun name => ⟨none, name, true⟩) ++ specified
  | some "ExportDefaultDeclaration" => return [⟨none, "default", false⟩]
  | _ => return []

/-- What one node refers to in another module. -/
def linksOf (t : Tree) : Except Fault (List Entry) := do
  match t.kind? with
  | some "ImportDeclaration" =>
    (t.get "specifiers").items >>= entriesOf (importedAs (sourceOf t))
  | some "ExportNamedDeclaration" =>
    if t.has "source" then (t.get "specifiers").items >>= entriesOf (reexportedAs (sourceOf t))
    else return []
  | some "ExportAllDeclaration" => return [⟨sourceOf t, "*", false⟩]
  | _ => return []

/-- The names a module exports, in document order. -/
def exports (t : Tree) : Except Fault (List String) := do
  return (← gather exportsOf t).map Entry.name

/-- The names a module refers to in others, each with the other module, in document
order. -/
def links (t : Tree) : Except Fault (List (Option String × String)) := do
  return (← gather linksOf t).map fun e => (e.source, e.name)

/-- The names of the interface that stand where an identifier names a binding. -/
def exposed (t : Tree) : Except Fault (List String) := do
  let entries := (← gather exportsOf t) ++ (← gather linksOf t)
  return (entries.filter Entry.isBinding).map Entry.name

/-! ## Entries follow renamings -/

section Entries

variable {binding : Bool} {kind : String} {fields : List (String × Tree)}

theorem nameIn_renameAt (h : (Tree.node kind fields).isFormed = true) (hkind : kind ≠ "Identifier")
    (key : String) (hkey : key ≠ "type")
    (hslot : (layouts kind).map (fun layout => layout.lookup key) =
      [some (.one ["Identifier"])]) :
    ∃ name, ∀ f, (renameAt f binding (.node kind fields)).nameIn key =
      .ok (if names (.node kind fields) key then f name else name) := by
  obtain ⟨value, hvalue, haccepts, hformed⟩ := lookup_of_isFormed h key _ hslot
  obtain ⟨kind', fields', rfl, hkind'⟩ := isAny_iff.1 haccepts
  obtain rfl := List.mem_singleton.1 hkind'
  obtain ⟨name, rfl⟩ := fields_of_identifier (isFormed_node.1 hformed).1
  refine ⟨name, fun f => ?_⟩
  have hneed := need_renameAt kind hkind hkey hvalue f binding
  have hidentifier : ∀ binding, renameAt f binding (.node "Identifier" [("name", .text name)]) =
      .node "Identifier" [("name", .text (if binding then f name else name))] := fun binding => by
    rw [renameAt, respellAt_identifier]
  rw [renameIn_node, hidentifier] at hneed
  simp only [nameIn, hneed]
  rfl

theorem isKind_renameAt (f : String → String) (kind' : String) (t : Tree) :
    (renameAt f binding t).isKind kind' = t.isKind kind' := by
  rw [isKind, kind?_renameAt, isKind]

theorem exportedAs_natural {t : Tree} (h : t.isFormed = true)
    (hany : t.isAny ["ExportSpecifier", "ExportDefaultSpecifier"] = true) :
    ∃ e : Entry, ∀ f, exportedAs (renameAt f binding t) = .ok (e.rename f) := by
  obtain ⟨kind, fields, rfl, hkind⟩ := isAny_iff.1 hany
  simp only [List.mem_cons, List.not_mem_nil, or_false] at hkind
  rcases hkind with rfl | rfl
  · obtain ⟨name, hname⟩ := nameIn_renameAt h (by decide) "exported" (by decide) rfl
    refine ⟨⟨none, name, false⟩, fun f => ?_⟩
    rw [exportedAs, isKind_renameAt, hname f]
    rfl
  · obtain ⟨name, hname⟩ := nameIn_renameAt h (by decide) "local" (by decide) rfl
    refine ⟨⟨none, name, true⟩, fun f => ?_⟩
    rw [exportedAs, isKind_renameAt, hname f]
    rfl

theorem reexportedAs_natural (source : Option String) {t : Tree} (h : t.isFormed = true)
    (hany : t.isAny ["ExportSpecifier", "ExportDefaultSpecifier"] = true) :
    ∃ e : Entry, ∀ f, reexportedAs source (renameAt f binding t) = .ok (e.rename f) := by
  obtain ⟨kind, fields, rfl, hkind⟩ := isAny_iff.1 hany
  simp only [List.mem_cons, List.not_mem_nil, or_false] at hkind
  rcases hkind with rfl | rfl
  · obtain ⟨name, hname⟩ := nameIn_renameAt h (by decide) "local" (by decide) rfl
    refine ⟨⟨source, name, true⟩, fun f => ?_⟩
    rw [reexportedAs, isKind_renameAt, hname f]
    rfl
  · refine ⟨⟨source, "default", false⟩, fun f => ?_⟩
    rw [reexportedAs, isKind_renameAt]
    rfl

theorem importedAs_natural (source : Option String) {t : Tree} (h : t.isFormed = true)
    (hany : t.isAny importKinds = true) :
    ∃ e : Entry, ∀ f, importedAs source (renameAt f binding t) = .ok (e.rename f) := by
  obtain ⟨kind, fields, rfl, hkind⟩ := isAny_iff.1 hany
  simp only [importKinds, List.mem_cons, List.not_mem_nil, or_false] at hkind
  rcases hkind with rfl | rfl | rfl
  · obtain ⟨name, hname⟩ := nameIn_renameAt h (by decide) "imported" (by decide) rfl
    refine ⟨⟨source, name, false⟩, fun f => ?_⟩
    rw [importedAs, isKind_renameAt, hname f]
    rfl
  · refine ⟨⟨source, "default", false⟩, fun f => ?_⟩
    rw [importedAs, isKind_renameAt, isKind_renameAt]
    rfl
  · refine ⟨⟨source, "*", false⟩, fun f => ?_⟩
    rw [importedAs, isKind_renameAt, isKind_renameAt]
    rfl

theorem entriesOf_natural {read : Tree → Except Fault Entry} {items : List Tree}
    (h : ∀ item ∈ items, ∃ e : Entry, ∀ f, read (renameAt f binding item) = .ok (e.rename f)) :
    ∃ found : List Entry, ∀ f,
      entriesOf read (items.map (renameAt f binding)) = .ok (found.map (Entry.rename f)) := by
  induction items with
  | nil => exact ⟨[], fun _ => rfl⟩
  | cons item rest ih =>
      obtain ⟨e, he⟩ := h item List.mem_cons_self
      obtain ⟨found, hfound⟩ := ih fun i hi => h i (List.mem_cons_of_mem _ hi)
      refine ⟨e :: found, fun f => ?_⟩
      rw [List.map_cons, entriesOf, he f, hfound f]
      rfl

/-- The specifiers of a node are read as those of the renamed node. -/
theorem specifiers_natural (h : (Tree.node kind fields).isFormed = true)
    (hkind : kind ≠ "Identifier") {kinds : List String}
    (hslot : (layouts kind).map (fun layout => layout.lookup "specifiers") = [some (.many kinds)])
    (binding : Bool) {read : Tree → Except Fault Entry}
    (hread : ∀ t : Tree, t.isFormed = true → t.isAny kinds = true → ∀ binding,
      ∃ e : Entry, ∀ f, read (renameAt f binding t) = .ok (e.rename f)) :
    ∃ found : List Entry, ∀ f,
      (((renameAt f binding (.node kind fields)).get "specifiers").items >>= entriesOf read) =
        .ok (found.map (Entry.rename f)) := by
  obtain ⟨value, hvalue, haccepts, hformed⟩ := lookup_of_isFormed h "specifiers" _ hslot
  obtain ⟨items, rfl, hkinds⟩ := accepts_many.1 haccepts
  obtain ⟨found, hfound⟩ := entriesOf_natural fun item hitem =>
    hread item (isFormed_list.1 hformed item hitem) (hkinds item hitem)
      (names (.node kind fields) "specifiers")
  refine ⟨found, fun f => ?_⟩
  have hget := get_renameAt kind hkind (by decide) hvalue f binding
  rw [hget, renameIn_list, items_list]
  exact hfound f

theorem text?_renameIn (f : String → String) (binding : Bool) (t : Tree) :
    (renameIn f binding t).text? = t.text? := by
  cases t with
  | node kind fields =>
      rw [renameIn_node, renameAt, respellAt]
      split <;> rfl
  | _ => rfl

/-- A renaming leaves the sources of a module alone. -/
theorem source_renameAt (h : (Tree.node kind fields).isFormed = true)
    (hkind : kind ≠ "Identifier") {slot : Slot}
    (hslot : (layouts kind).map (fun layout => layout.lookup "source") = [some slot])
    (hsource : slot = .one ["Literal"] ∨ slot = .maybe ["Literal"]) (f : String → String) :
    sourceOf (renameAt f binding (.node kind fields)) = sourceOf (.node kind fields) ∧
      (renameAt f binding (.node kind fields)).has "source" =
        (Tree.node kind fields).has "source" := by
  obtain ⟨value, hvalue, haccepts, hformed⟩ := lookup_of_isFormed h "source" _ hslot
  have hget := get_renameAt kind hkind (by decide) hvalue f binding
  have hget' : (Tree.node kind fields).get "source" = value := by
    simp [Tree.get, get?, hvalue]
  have hshape : value = .null ∨ value.isAny ["Literal"] = true := by
    rcases hsource with rfl | rfl
    · exact .inr haccepts
    · exact accepts_maybe.1 haccepts
  rw [sourceOf, sourceOf, has, has, hget, hget']
  rcases hshape with rfl | hany
  · exact ⟨rfl, rfl⟩
  · obtain ⟨kind', fields', rfl, hkind'⟩ := isAny_iff.1 hany
    obtain rfl := List.mem_singleton.1 hkind'
    rw [renameIn_node, Tree.get, get?_renameAt (by decide) f _ fields' (by decide)]
    constructor
    · rw [Tree.get, get?, if_neg (by decide)]
      cases fields'.lookup "raw" with
      | none => rfl
      | some raw => exact text?_renameIn ..
    · rw [renameAt_node (by decide)]
      rfl

theorem bindingsOf_natural {t : Tree} (h : t.isFormed = true) (binding : Bool) :
    Natural bindingsOf binding t := by
  cases t with
  | node kind fields =>
      by_cases hkind : kind ∈ ["VariableDeclaration", "FunctionDeclaration", "ClassDeclaration"]
      · simp only [List.mem_cons, List.not_mem_nil, or_false] at hkind
        rcases hkind with rfl | rfl | rfl
        · refine (declarations_natural h).congr fun f => ?_
          rw [bindingsOf, kind?_renameAt]
          rfl
        · refine (Scope.ownNames_natural h (by decide) rfl rfl).congr fun f => ?_
          rw [bindingsOf, kind?_renameAt]
          rfl
        · refine (Scope.ownNames_natural h (by decide) rfl rfl).congr fun f => ?_
          rw [bindingsOf, kind?_renameAt]
          rfl
      · refine natural_nil fun f => ?_
        simp only [List.mem_cons, List.not_mem_nil, or_false, not_or] at hkind
        rw [bindingsOf, kind?_renameAt]
        simp only [kind?]
        split <;> simp_all [pure, Except.pure]
  | _ => exact natural_nil fun f => rfl

/-- What one node exports follows a renaming. -/
theorem exportsOf_natural {t : Tree} (h : t.isFormed = true) (hnode : t.isNode = true)
    (binding : Bool) : NaturalBy Entry.rename exportsOf binding t := by
  cases t with
  | node kind fields =>
      by_cases hnamed : kind = "ExportNamedDeclaration"
      · subst hnamed
        obtain ⟨value, hvalue, haccepts, hformed⟩ :=
          lookup_of_isFormed h "declaration" (.maybe statementKinds) rfl
        have hshape := (accepts_maybe.1 haccepts).imp_right isNode_of_isAny
        have hdeclaration : Natural (fun t => bindingsOf (t.get "declaration")) binding
            (.node "ExportNamedDeclaration" fields) :=
          Scope.natural_of_get "declaration" (by decide) (by decide) hvalue hshape
            (bindingsOf_natural hformed _) binding
        obtain ⟨bound, hbound⟩ := hdeclaration
        obtain ⟨specified, hspecified⟩ := specifiers_natural h (by decide) rfl binding
          fun t h hany binding => exportedAs_natural h hany
        refine ⟨bound.map (fun name => ⟨none, name, true⟩) ++ specified, fun f => ?_⟩
        rw [exportsOf, kind?_renameAt]
        simp only [kind?, hbound f, hspecified f]
        rw [List.map_append, List.map_map]
        exact congrArg (fun entries => Except.ok (entries ++ _)) (List.map_map ..)
      by_cases hdefault : kind = "ExportDefaultDeclaration"
      · subst hdefault
        refine ⟨[⟨none, "default", false⟩], fun f => ?_⟩
        rw [exportsOf, kind?_renameAt]
        rfl
      · refine ⟨[], fun f => ?_⟩
        rw [exportsOf, kind?_renameAt]
        simp only [kind?]
        split <;> simp_all [pure, Except.pure]
  | _ => cases hnode

/-- What one node refers to in another module follows a renaming. -/
theorem linksOf_natural {t : Tree} (h : t.isFormed = true) (hnode : t.isNode = true)
    (binding : Bool) : NaturalBy Entry.rename linksOf binding t := by
  cases t with
  | node kind fields =>
      by_cases himport : kind = "ImportDeclaration"
      · subst himport
        obtain ⟨found, hfound⟩ := specifiers_natural h (by decide) rfl binding
          fun t h hany binding =>
            importedAs_natural (sourceOf (.node "ImportDeclaration" fields)) h hany
        refine ⟨found, fun f => ?_⟩
        rw [linksOf, kind?_renameAt, (source_renameAt h (by decide) rfl (.inl rfl) f).1]
        exact hfound f
      by_cases hnamed : kind = "ExportNamedDeclaration"
      · subst hnamed
        obtain ⟨found, hfound⟩ := specifiers_natural h (by decide) rfl binding
          fun t h hany binding =>
            reexportedAs_natural (sourceOf (.node "ExportNamedDeclaration" fields)) h hany
        have hsource := fun f =>
          @source_renameAt binding _ fields h (by decide) _ rfl (.inr rfl) f
        cases hhas : (Tree.node "ExportNamedDeclaration" fields).has "source" with
        | true =>
            refine ⟨found, fun f => ?_⟩
            rw [linksOf, kind?_renameAt, (hsource f).1, (hsource f).2, hhas]
            exact hfound f
        | false =>
            refine ⟨[], fun f => ?_⟩
            rw [linksOf, kind?_renameAt, (hsource f).2, hhas]
            rfl
      by_cases hall : kind = "ExportAllDeclaration"
      · subst hall
        refine ⟨[⟨sourceOf (.node "ExportAllDeclaration" fields), "*", false⟩], fun f => ?_⟩
        rw [linksOf, kind?_renameAt, (source_renameAt h (by decide) rfl (.inl rfl) f).1]
        rfl
      · refine ⟨[], fun f => ?_⟩
        rw [linksOf, kind?_renameAt]
        simp only [kind?]
        split <;> simp_all [pure, Except.pure]
  | _ => cases hnode

end Entries

/-! ## The interface of a renamed module -/

theorem names_kept_iff (entries : List Entry) (f : String → String) :
    (entries.map (Entry.rename f)).map Entry.name = entries.map Entry.name ↔
      ∀ n ∈ (entries.filter Entry.isBinding).map Entry.name, f n = n := by
  rw [List.map_map, List.map_inj_left]
  simp only [List.mem_map, List.mem_filter, Function.comp, Entry.rename]
  constructor
  · rintro h n ⟨e, ⟨he, hbinding⟩, rfl⟩
    simpa [hbinding] using h e he
  · intro h e he
    split
    · rename_i hbinding
      exact h e.name ⟨e, ⟨he, hbinding⟩, rfl⟩
    · rfl

theorem pairs_kept_iff (entries : List Entry) (f : String → String) :
    ((entries.map (Entry.rename f)).map fun e => (e.source, e.name)) =
        (entries.map fun e => (e.source, e.name)) ↔
      ∀ n ∈ (entries.filter Entry.isBinding).map Entry.name, f n = n := by
  rw [← names_kept_iff, List.map_map, List.map_map, List.map_inj_left, List.map_inj_left]
  refine forall₂_congr fun e he => ?_
  have hsource : (e.rename f).source = e.source := by
    rw [Entry.rename]
    split <;> rfl
  simp only [Function.comp, hsource, Prod.mk.injEq, true_and]

/-- Does renaming after the table leave the interface of the tree as it is? -/
def KeepsInterface (table : Table String) (t : Tree) : Prop :=
  (t.rename table).1.exports = t.exports ∧ (t.rename table).1.links = t.links

/-- The interface of a formed tree can be read, and survives the renamings that leave its
exposed names alone. -/
theorem keepsInterface_iff {t : Tree} (h : t.isFormed = true) (hnode : t.isNode = true) :
    ∃ exported linked reached, t.exports = .ok exported ∧ t.links = .ok linked ∧
      t.exposed = .ok reached ∧
      ∀ table, KeepsInterface table t ↔ ∀ n ∈ reached, table.spell n = n := by
  obtain ⟨exported, hexported⟩ :=
    gather_natural (fun t h hnode binding => exportsOf_natural h hnode binding) h hnode
  obtain ⟨linked, hlinked⟩ :=
    gather_natural (fun t h hnode binding => linksOf_natural h hnode binding) h hnode
  have hsame : ∀ entries : List Entry, entries.map (Entry.rename fun name => name) = entries := by
    intro entries
    refine (List.map_congr_left fun e _ => ?_).trans (List.map_id' entries)
    rw [Entry.rename]
    split <;> rfl
  have hexports := hexported fun name => name
  have hlinks := hlinked fun name => name
  rw [renameAt_id, hsame] at hexports hlinks
  refine ⟨_, _, _, by rw [exports, hexports]; rfl, by rw [links, hlinks]; rfl,
    by rw [exposed, hexports, hlinks]; rfl, fun table => ?_⟩
  obtain ⟨count, hrename⟩ := rename_formed h hnode table
  rw [KeepsInterface, hrename, exports, exports, links, links,
    show t.renamed table.spell = renameAt table.spell true t from rfl, hexported, hlinked,
    hexports, hlinks, List.filter_append, List.map_append]
  change .ok _ = Except.ok _ ∧ .ok _ = Except.ok _ ↔ _
  rw [Except.ok.injEq, Except.ok.injEq, names_kept_iff, pairs_kept_iff]
  simp only [List.mem_append, or_imp, forall_and]

end Tree

open NameRecovery.Tree

/-- A module and its resolution, with the interface of the latter. -/
structure ModuleInterface (t : Tree) (res : Scope.Resolution) (declared exported : List String)
    (linked : List (Option String × String)) (reached : List String) : Prop where
  /-- Resolving the module succeeds. -/
  resolved : Scope.resolve t = .ok res
  /-- The names it declares. -/
  declared_eq : res.tree.declaredNames = .ok declared
  /-- The names it exports. -/
  exports_eq : res.tree.exports = .ok exported
  /-- The names it refers to in other modules. -/
  links_eq : res.tree.links = .ok linked
  /-- The names of the interface that a renaming reaches. -/
  exposed_eq : res.tree.exposed = .ok reached
  /-- Renaming after a table succeeds. -/
  renames : ∀ table, ∃ count, (res.tree.rename table).2 = .ok count
  /-- It keeps the interface exactly if it spells the names it reaches as before. -/
  kept_iff : ∀ table, KeepsInterface table res.tree ↔ ∀ n ∈ reached, table.spell n = n
  /-- All renamings of declared names keep the interface exactly if they reach none of its
  names. -/
  always_kept_iff : (∀ table : Table String, (∀ k ∈ table.keys, k ∈ declared) →
    KeepsInterface table res.tree) ↔ ∀ n ∈ reached, n ∉ declared

/-- **The interface of a module survives the renamings of declared names** that leave alone the
names bound by exported declarations and those taken from other modules to be exported. -/
theorem rename_keeps_interface_iff {source : String} {t : Tree}
    (h : Grammar.parse .module source = .ok t) :
    ∃ res declared exported linked reached,
      ModuleInterface t res declared exported linked reached := by
  have hprogram := Grammar.isProgram_of_parse h
  obtain ⟨res, dry, real, hruns⟩ := Scope.runs_program hprogram
  have hprogram' : res.tree.isProgram = true := by
    rw [hruns.tree_eq_respell (Scope.isFormed_of_isProgram hprogram)]
    exact isProgram_respell hprogram
  have hformed := Scope.isFormed_of_isProgram hprogram'
  have hnode : res.tree.isNode = true := by
    obtain ⟨fields, heq, -⟩ := Scope.exists_fields_of_isProgram hprogram'
    rw [heq]
    rfl
  obtain ⟨declared, hdeclared⟩ := declaredNames_formed hformed hnode
  obtain ⟨exported, linked, reached, hexports, hlinks, hexposed, hkept⟩ :=
    keepsInterface_iff hformed hnode
  refine ⟨res, declared, exported, linked, reached,
    { resolved := hruns.resolved
      declared_eq := hdeclared
      exports_eq := hexports
      links_eq := hlinks
      exposed_eq := hexposed
      renames := fun table => ?_
      kept_iff := hkept
      always_kept_iff := ?_ }⟩
  · obtain ⟨count, hrename⟩ := rename_formed hformed hnode table
    exact ⟨count, by rw [hrename]⟩
  · simp only [hkept]
    exact Table.spell_eq_self_iff

set_option maxRecDepth 100000 in
/-- A module that imports a name and exports it again under another one. -/
theorem rename_keeps_interface_import :
    ∃ t, Grammar.parse .module "import {a} from 'm'; export {a as b};" = .ok t ∧
      ∃ res declared exported linked reached,
        ModuleInterface t res declared exported linked reached := by
  have hok : (Grammar.parse .module
      "import {a} from 'm'; export {a as b};").toOption.isSome = true := by
    decide +kernel
  cases hparse : Grammar.parse .module "import {a} from 'm'; export {a as b};" with
  | error e => rw [hparse] at hok; cases hok
  | ok t => exact ⟨t, rfl, rename_keeps_interface_iff hparse⟩

set_option maxRecDepth 100000 in
set_option synthInstance.maxSize 512 in
/-- A module that exports a variable and a name of another module, which is the name of a
variable here: both names are declared, and renaming them changes what is exported and what
is taken from the other module. -/
theorem rename_changes_interface :
    ∃ t res, Grammar.parse .module "export var a; export {b} from 'm'; var b;" = .ok t ∧
      Scope.resolve t = .ok res ∧ res.tree.declaredNames = .ok ["a", "b"] ∧
      res.tree.exports = .ok ["a", "b"] ∧ res.tree.links = .ok [(some "'m'", "b")] ∧
      (res.tree.rename [("a", "c"), ("b", "d")]).1.exports = .ok ["c", "b"] ∧
      (res.tree.rename [("a", "c"), ("b", "d")]).1.links = .ok [(some "'m'", "d")] := by
  have hrun : ((Grammar.parse .module
      "export var a; export {b} from 'm'; var b;").toOption.bind fun t =>
        (Scope.resolve t).toOption.map fun res =>
          ([res.tree.declaredNames.toOption, res.tree.exports.toOption,
              (res.tree.rename [("a", "c"), ("b", "d")]).1.exports.toOption],
            [res.tree.links.toOption,
              (res.tree.rename [("a", "c"), ("b", "d")]).1.links.toOption])) =
      some ([some ["a", "b"], some ["a", "b"], some ["c", "b"]],
        [some [(some "'m'", "b")], some [(some "'m'", "d")]]) := by
    decide +kernel
  obtain ⟨t, hparse, hrest⟩ := Option.bind_eq_some_iff.1 hrun
  obtain ⟨res, hres, hfound⟩ := Option.map_eq_some_iff.1 hrest
  simp only [Prod.mk.injEq, List.cons.injEq, and_true] at hfound
  obtain ⟨⟨hdeclared, hexports, hexports'⟩, hlinks, hlinks'⟩ := hfound
  exact ⟨t, res, ok_of_toOption hparse, ok_of_toOption hres, ok_of_toOption hdeclared,
    ok_of_toOption hexports, ok_of_toOption hlinks, ok_of_toOption hexports',
    ok_of_toOption hlinks'⟩

end NameRecovery
