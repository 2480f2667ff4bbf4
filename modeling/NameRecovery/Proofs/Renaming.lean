import NameRecovery.Proofs.Table
import NameRecovery.Proofs.Tree.Formed
import NameRecovery.Proofs.Tree.Proper
import NameRecovery.Proofs.Tree.Rename
import NameRecovery.Renaming

/-!
# Renaming formed trees after a table

On a formed tree every identifier has a name, so that renaming after a table cannot
fail.  It gives every occurrence the name the table has for its old one.

* `Table.spell` — the name a table gives a name;
* `rename_formed` — renaming after a table spells all occurrences as the table says;
* `declaredNames_formed` — the names a formed tree declares can be read.
-/

namespace NameRecovery

/-- The name the table gives a name: the new one, or the old one if there is none. -/
def Table.spell (table : Table String) (name : String) : String :=
  (table.find? name).getD name

/-- A name that is no key keeps its spelling. -/
theorem Table.spell_of_not_mem {table : Table String} {name : String} (h : name ∉ table.keys) :
    table.spell name = name := by
  rw [spell, find?_eq_none_of_not_mem h]
  rfl

theorem Table.spell_single (name new : String) : Table.spell [(name, new)] name = new := by
  simp [spell, find?]

theorem append_underscore_ne (name : String) : name ++ "_" ≠ name := by
  intro heq
  have hlength := congrArg String.length heq
  rw [String.length_append] at hlength
  have hone : "_".length = 1 := rfl
  omega

/-- Names keep their spelling under all tables with the given keys exactly if they are none
of the keys. -/
theorem Table.spell_eq_self_iff {keys names : List String} :
    (∀ table : Table String, (∀ k ∈ table.keys, k ∈ keys) → ∀ n ∈ names, table.spell n = n) ↔
      ∀ n ∈ names, n ∉ keys := by
  constructor
  · intro h n hn hkey
    have hspell := h [(n, n ++ "_")] (by simpa [Table.keys] using hkey) n hn
    rw [spell_single] at hspell
    exact append_underscore_ne n hspell
  · intro h table hkeys n hn
    exact spell_of_not_mem fun hmem => h n hn (hkeys n hmem)

namespace Tree

/-- The new names of occurrences. -/
def respelled (table : Table String) (occurrences : List (Path × String)) : Edits :=
  occurrences.filterMap fun o => (table.find? o.2).map fun new => (o.1, new)

/-- The new name of an identifier with a name is that of the occurrence it is, if it is one. -/
theorem newName_eq (table : Table String) {visit : Visit} {fields : List (String × Tree)}
    {name : String} (hnode : visit.node = .node "Identifier" fields)
    (hname : fields.lookup "name" = some (.text name)) :
    visit.newName table = .ok (visit.occurrence?.bind fun o => table.find? o.2) := by
  have hidentifier : visit.isIdentifier = true := by rw [Visit.isIdentifier, hnode]; rfl
  have hget : visit.node.get? "name" = some (.text name) := by
    rw [hnode, get?, if_neg (by decide), hname]
  have hneed : visit.node.need "name" = .ok (.text name) := by
    rw [hnode] at hget ⊢
    simp only [need, hget]
  have hnew : visit.newName table =
      .ok (if visit.isBinding then table.find? name else none) := by
    rw [Visit.newName, hneed]
    rfl
  rw [hnew, Visit.occurrence?, hidentifier]
  cases visit.isBinding with
  | false => rfl
  | true => simp only [if_true, Bool.and_self, get, hget, Option.getD_some, text?,
      Option.map_some, Option.bind_some]

/-- The new names among visited nodes, of which the identifiers have names. -/
theorem newNames_eq (table : Table String) {visits : List Visit}
    (h : ∀ visit ∈ visits, visit.isIdentifier = true → ∃ fields name,
      visit.node = .node "Identifier" fields ∧ fields.lookup "name" = some (.text name)) :
    newNames table visits = (respelled table (visits.filterMap Visit.occurrence?), .ok ()) := by
  induction visits with
  | nil => rfl
  | cons visit rest ih =>
      have hrest := ih fun v hv => h v (List.mem_cons_of_mem _ hv)
      rw [newNames, List.filterMap_cons]
      cases hidentifier : visit.isIdentifier with
      | false =>
          have hnone : visit.occurrence? = none := by simp [Visit.occurrence?, hidentifier]
          rw [hnone]
          exact hrest
      | true =>
          obtain ⟨fields, name, hnode, hname⟩ := h visit List.mem_cons_self hidentifier
          rw [newName_eq table hnode hname, hrest]
          cases hoccurrence : visit.occurrence? with
          | none => rfl
          | some o =>
              have hpath := (occurrence?_path hoccurrence).1
              cases hnew : table.find? o.2 <;> simp [respelled, hnew, hpath]

theorem lookup_respelled (table : Table String) {occurrences : List (Path × String)}
    (hnodup : (occurrences.map Prod.fst).Nodup) {o : Path × String} (ho : o ∈ occurrences) :
    (respelled table occurrences).lookup o.1 = table.find? o.2 := by
  induction occurrences with
  | nil => exact absurd ho List.not_mem_nil
  | cons first rest ih =>
      obtain ⟨hfirst, hnodup⟩ := List.nodup_cons.1 hnodup
      rw [respelled, List.filterMap_cons]
      rcases List.mem_cons.1 ho with rfl | ho
      · cases hnew : table.find? o.2 with
        | some new => simp
        | none =>
            refine List.lookup_eq_none_iff.2 fun e he => ?_
            obtain ⟨o', ho', hmap⟩ := List.mem_filterMap.1 he
            obtain ⟨new, -, rfl⟩ := Option.map_eq_some_iff.1 hmap
            have hne : o.1 ≠ o'.1 := fun heq => hfirst (heq ▸ List.mem_map_of_mem ho')
            simpa using hne
      · have hne : (o.1 == first.1) = false :=
          beq_false_of_ne fun heq => hfirst (heq ▸ List.mem_map_of_mem ho)
        have hrest := ih hnodup ho
        rw [respelled] at hrest
        cases table.find? first.2 with
        | none => exact hrest
        | some new => simp only [Option.map_some, List.lookup_cons, hne]; exact hrest

/-- Renaming a formed tree succeeds: it spells all occurrences as the table says. -/
theorem rename_formed {t : Tree} (h : t.isFormed = true) (hnode : t.isNode = true)
    (table : Table String) : ∃ count, t.rename table = (t.renamed table.spell, .ok count) := by
  cases t with
  | node kind fields =>
      rw [rename]
      split
      · rename_i hempty
        refine ⟨0, ?_⟩
        rw [List.isEmpty_iff.1 hempty, renamed, respell_eq_self h fun o _ => rfl]
      · have hnew := newNames_eq table
          (name_of_proper_visit (isProper_of_isFormed _ h) ⟨none, none, []⟩)
        rw [walk_node]
        dsimp only
        rw [visits, hnew]
        refine ⟨_, Prod.ext ?_ rfl⟩
        change (Tree.node kind fields).edit (respelled table (Tree.node kind fields).occurrences) = _
        rw [edit_eq_respell h, renamed]
        · refine respell_congr h fun o ho => ?_
          rw [lookup_respelled table (occurrences_paths_nodup h) ho]
          rfl
        · intro e he
          obtain ⟨o, ho, hmap⟩ := List.mem_filterMap.1 he
          obtain ⟨new, -, rfl⟩ := Option.map_eq_some_iff.1 hmap
          exact List.mem_map.2 ⟨o, ho, rfl⟩
  | _ => cases hnode

/-! ## Declared names -/

theorem boundNames_formed {kinds : List String} {t : Tree} (h : IsElement kinds t) :
    ∃ names, t.boundNames = .ok names := by
  rcases h with rfl | hany
  · exact ⟨[], rfl⟩
  · obtain ⟨names, hnames, -⟩ := (boundNames_natural hany.2 (.inr hany.isNode)).read_eq
    exact ⟨names, hnames⟩

theorem boundNamesOf_formed {kinds : List String} {items : List Tree}
    (h : ∀ t ∈ items, IsA kinds t) : ∃ names, boundNamesOf items = .ok names := by
  induction items with
  | nil => exact ⟨[], rfl⟩
  | cons item rest ih =>
      obtain ⟨names, hnames⟩ := boundNames_formed (.inr (h item List.mem_cons_self))
      obtain ⟨more, hmore⟩ := ih fun t ht => h t (List.mem_cons_of_mem _ ht)
      refine ⟨names ++ more, ?_⟩
      rw [boundNamesOf, hnames, hmore]
      rfl

theorem nameIn_formed {key : String} {t : Tree} (hnode : t.isNode = true) (hkey : key ≠ "type")
    (h : IsA ["Identifier"] (t.get key)) : ∃ name, t.nameIn key = .ok name := by
  obtain ⟨kind, fields, heq, hkind⟩ := isAny_iff.1 h.1
  obtain rfl := List.mem_singleton.1 hkind
  have hformed := h.2
  rw [heq] at hformed
  obtain ⟨name, rfl⟩ := fields_of_identifier (isFormed_node.1 hformed).1
  refine ⟨name, ?_⟩
  cases t with
  | node kind fields =>
      have hlookup : fields.lookup key = some (.node "Identifier" [("name", .text name)]) := by
        rw [Tree.get, get?, if_neg hkey] at heq
        cases hfound : fields.lookup key with
        | none => rw [hfound] at heq; cases heq
        | some value => rw [hfound] at heq; exact congrArg some heq
      have hneed : (Tree.node kind fields).need key =
          .ok (.node "Identifier" [("name", .text name)]) := by
        simp only [need, get?, if_neg hkey, hlookup]
      rw [nameIn, hneed]
      rfl
  | _ => cases hnode

/-- The name of a node that has one can be read. -/
theorem ownName_formed {kind : String} {t : Tree} (h : IsA [kind] t)
    (hslot : (layouts kind).map (fun layout => layout.lookup "id") = [some (.maybe ["Identifier"])])
    (hhas : t.has "id" = true) : ∃ name, t.nameIn "id" = .ok name := by
  rcases holds_maybe_iff.1 (h.get_holds "id" _ (by decide) hslot) with hnull | hid
  · rw [has, hnull] at hhas
    cases hhas
  · exact nameIn_formed h.isNode (by decide) hid

theorem paramNames_formed {kind : String} {t : Tree} (h : IsA [kind] t)
    (hslot : (layouts kind).map (fun layout => layout.lookup "params") =
      [some (.many expressionKinds)]) :
    ∃ params names, (t.get "params").items = .ok params ∧ boundNamesOf params = .ok names := by
  have hparams := h.get_holds "params" _ (by decide) hslot
  obtain ⟨params, heq, -⟩ := accepts_many.1 hparams.1
  rw [heq] at hparams ⊢
  obtain ⟨names, hnames⟩ := boundNamesOf_formed (holds_many_iff.1 hparams)
  exact ⟨params, names, items_list params, hnames⟩

/-- An arrow function has no name. -/
theorem has_id_arrow {t : Tree} (h : IsA ["ArrowFunctionExpression"] t) : t.has "id" = false := by
  obtain ⟨kind, fields, rfl, hkind⟩ := isAny_iff.1 h.1
  obtain rfl := List.mem_singleton.1 hkind
  obtain _ | ⟨hparams, _ | ⟨hbody, _ | ⟨hgenerator, _ | ⟨hasync, _ | ⟨hexpression, ⟨⟩⟩⟩⟩⟩⟩ :=
    filled_of_isFormed h.2 rfl
  rfl

theorem function_formed {kind : String} {t : Tree} (h : IsA [kind] t)
    (hkind : functionKinds.contains kind = true) :
    (t.has "id" = true → ∃ name, t.nameIn "id" = .ok name) ∧
      ∃ params names, (t.get "params").items = .ok params ∧ boundNamesOf params = .ok names := by
  have hkinds : kind = "FunctionDeclaration" ∨ kind = "FunctionExpression" ∨
      kind = "ArrowFunctionExpression" := by
    simpa [functionKinds] using hkind
  rcases hkinds with rfl | rfl | rfl
  · exact ⟨ownName_formed h rfl, paramNames_formed h rfl⟩
  · exact ⟨ownName_formed h rfl, paramNames_formed h rfl⟩
  · refine ⟨fun hhas => ?_, paramNames_formed h rfl⟩
    rw [has_id_arrow h] at hhas
    cases hhas

theorem class_formed {kind : String} {t : Tree} (h : IsA [kind] t)
    (hkind : classKinds.contains kind = true) (hhas : t.has "id" = true) :
    ∃ name, t.nameIn "id" = .ok name := by
  have hkinds : kind = "ClassDeclaration" ∨ kind = "ClassExpression" := by
    simpa [classKinds] using hkind
  rcases hkinds with rfl | rfl
  · exact ownName_formed h rfl hhas
  · exact ownName_formed h rfl hhas

theorem import_formed {kind : String} {t : Tree} (h : IsA [kind] t)
    (hkind : importKinds.contains kind = true) : ∃ name, t.nameIn "local" = .ok name := by
  have hkinds : kind = "ImportSpecifier" ∨ kind = "ImportDefaultSpecifier" ∨
      kind = "ImportNamespaceSpecifier" := by
    simpa [importKinds] using hkind
  have hlocal : IsA ["Identifier"] (t.get "local") := by
    rcases hkinds with rfl | rfl | rfl
    · exact h.get_holds "local" (.one ["Identifier"]) (by decide) rfl
    · exact h.get_holds "local" (.one ["Identifier"]) (by decide) rfl
    · exact h.get_holds "local" (.one ["Identifier"]) (by decide) rfl
  exact nameIn_formed h.isNode (by decide) hlocal

/-- The names a formed node declares can be read. -/
theorem namesDeclaredBy_formed {t : Tree} (h : t.isFormed = true) :
    ∃ names, t.namesDeclaredBy = .ok names := by
  cases t with
  | node kind fields =>
      have hany : IsA [kind] (.node kind fields) :=
        ⟨isAny_iff.2 ⟨kind, fields, rfl, List.mem_singleton_self kind⟩, h⟩
      simp only [namesDeclaredBy, kind?]
      split_ifs with hdeclarator hfunction hhas hclass hhas hcatch himport
      · subst hdeclarator
        exact boundNames_formed (.inr (hany.get_holds "id" (.one expressionKinds) (by decide) rfl))
      · obtain ⟨hid, params, names, hparams, hnames⟩ := function_formed hany hfunction
        obtain ⟨name, hname⟩ := hid hhas
        exact ⟨[name] ++ names, by rw [hname, hparams]; simp [hnames, bind, Except.bind, pure, Except.pure]⟩
      · obtain ⟨-, params, names, hparams, hnames⟩ := function_formed hany hfunction
        exact ⟨[] ++ names, by rw [hparams]; simp [hnames, bind, Except.bind, pure, Except.pure]⟩
      · obtain ⟨name, hname⟩ := class_formed hany hclass hhas
        exact ⟨[name], by rw [hname]; rfl⟩
      · exact ⟨[], rfl⟩
      · subst hcatch
        exact boundNames_formed (.inr (hany.get_holds "param" (.one expressionKinds) (by decide) rfl))
      · obtain ⟨name, hname⟩ := import_formed hany himport
        exact ⟨[name], by rw [hname]; rfl⟩
      · exact ⟨[], rfl⟩
  | _ => exact ⟨[], rfl⟩

/-- The names a formed tree declares can be read. -/
theorem declaredNames_formed {t : Tree} (h : t.isFormed = true) (hnode : t.isNode = true) :
    ∃ names, t.declaredNames = .ok names := by
  have hvisits : ∀ visits : List Visit, (∀ visit ∈ visits, visit.node.isFormed = true) →
      ∃ names, namesDeclaredIn visits = .ok names := by
    intro visits hformed
    induction visits with
    | nil => exact ⟨[], rfl⟩
    | cons visit rest ih =>
        obtain ⟨names, hnames⟩ := namesDeclaredBy_formed (hformed visit List.mem_cons_self)
        obtain ⟨more, hmore⟩ := ih fun v hv => hformed v (List.mem_cons_of_mem _ hv)
        refine ⟨names ++ more, ?_⟩
        rw [namesDeclaredIn, hnames, hmore]
        rfl
  cases t with
  | node kind fields =>
      rw [declaredNames, walk_node]
      exact hvisits _ (isFormed_visit h ⟨none, none, []⟩)
  | _ => cases hnode

end Tree

end NameRecovery
