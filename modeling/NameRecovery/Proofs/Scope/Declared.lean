import NameRecovery.Proofs.Tree.Rename
import NameRecovery.Scope.Event

/-!
# Declared names follow renamings

The names a scope declares are those of the `var` declarations anywhere inside it, of
the statements of its block, of parameters and loop heads.  All of them are read
naturally off a formed tree.

* `varNamesAt_natural` — the `var` names of a part of a program;
* `lexicalNames_natural` — the names the statements of a block declare for it;
* `scopeNames?_natural` — the names of any scope.
-/

namespace NameRecovery.Scope

open NameRecovery.Tree

variable {binding : Bool} {t : Tree}

/-! ## `var` names -/

theorem concatNames_append (l₁ l₂ : List (Except Fault (List String))) :
    concatNames (l₁ ++ l₂) = do return (← concatNames l₁) ++ (← concatNames l₂) := by
  induction l₁ with
  | nil =>
      rw [List.nil_append]
      generalize concatNames l₂ = others
      cases others <;> rfl
  | cons part rest ih =>
      rw [List.cons_append, concatNames, concatNames, ih]
      cases part with
      | error e => rfl
      | ok names =>
          cases concatNames rest with
          | error e => rfl
          | ok others =>
              cases concatNames l₂ with
              | error e => rfl
              | ok last => simp [bind, Except.bind, pure, Except.pure]

theorem varNamesItems_eq (items : List Tree) :
    varNamesItems items = concatNames (items.map varNamesAt) := by
  induction items with
  | nil => rfl
  | cons item rest ih => rw [varNamesItems, ih]; rfl

theorem concatNames_singleton (part : Except Fault (List String)) :
    concatNames [part] = part := by
  cases part with
  | error e => rfl
  | ok names => simp [concatNames, bind, Except.bind, pure, Except.pure]

theorem varNamesFields_eq (fields : List (String × Tree)) :
    varNamesFields fields = fields.map fun field =>
      (field.1, concatNames ((placed field.1 field.2).map fun b => varNamesAt b.2)) := by
  induction fields with
  | nil => rfl
  | cons field rest ih =>
      obtain ⟨key, value⟩ := field
      rw [List.map_cons]
      cases value with
      | list items =>
          have hitems : items.zipIdx.map Prod.fst = items := List.zipIdx_map_fst ..
          rw [varNamesFields, ih, varNamesItems_eq, placed, List.map_map]
          conv => lhs; rw [← hitems, List.map_map]
          rfl
      | _ =>
          rw [varNamesFields, ih, placed_of_ne_list (by simp), List.map_singleton,
            concatNames_singleton]
          simp

theorem varNamesAt_of_not_node (h : t.isNode = false) : varNamesAt t = .ok [] := by
  cases t with
  | node kind fields => exact absurd h (by simp [isNode, kind?])
  | _ => rw [varNamesAt]; simp

/-- The `var` names below a formed node are those of its branches. -/
theorem varNamesBelow_eq {kind : String} {fields : List (String × Tree)}
    (h : isLaidOut kind fields = true) :
    varNamesBelow (.node kind fields) =
      concatNames ((placedIn fields).map fun b => varNamesAt b.2) := by
  rw [varNamesBelow, varNamesFields_eq, inDocumentOrder_eq h]
  clear h
  induction fields with
  | nil => rfl
  | cons field rest ih =>
      have hplaced : placedIn (field :: rest) = placed field.1 field.2 ++ placedIn rest := rfl
      rw [hplaced, List.map_append, concatNames_append, ← ih, List.filter_cons]
      cases hentered : isEntered kind field with
      | true => rfl
      | false =>
          have hdata : field.2.isData = true := by
            simp only [isEntered, Bool.or_eq_false_iff] at hentered
            simpa using hentered.2
          obtain ⟨hsingle, hnode⟩ := placed_data field.1 hdata
          rw [hsingle, List.map_singleton, concatNames_singleton, varNamesAt_of_not_node hnode]
          simp only [Bool.false_eq_true, if_false]
          generalize concatNames (List.map _ (List.filter (isEntered kind) rest)) = others
          cases others <;> rfl

/-- Parts that follow every renaming do so together. -/
theorem concatNames_natural {α : Type} (parts : List α)
    (part : (String → String) → α → Except Fault (List String))
    (h : ∀ a ∈ parts, ∃ found : List String, ∀ f, part f a = .ok (found.map f)) :
    ∃ found : List String, ∀ f, concatNames (parts.map (part f)) = .ok (found.map f) := by
  induction parts with
  | nil => exact ⟨[], fun _ => rfl⟩
  | cons a rest ih =>
      obtain ⟨first, hfirst⟩ := h a List.mem_cons_self
      obtain ⟨others, hothers⟩ := ih fun b hb => h b (List.mem_cons_of_mem _ hb)
      refine ⟨first ++ others, fun f => ?_⟩
      rw [List.map_cons, concatNames, hfirst f, hothers f, List.map_append]
      rfl

/-- The branches of a renamed node are renamed themselves. -/
theorem placedIn_renameAt (f : String → String) (binding : String → Bool)
    (fields : List (String × Tree)) :
    placedIn (fields.map fun field => (field.1, renameIn f (binding field.1) field.2)) =
      (placedIn fields).map fun b => (b.1, renameAt f (binding b.1.field) b.2) := by
  have hrespell := placedIn_respell (fun _ name => f name) binding [] fields
  simp only [respellAt_eq_renameAt] at hrespell
  rw [← hrespell]
  refine congrArg placedIn (List.map_congr_left fun field _ => ?_)
  rw [respellIn_eq_renameIn fun b _ => respellAt_eq_renameAt ..]

theorem isLaidOut_renameAt {kind : String} {fields : List (String × Tree)}
    (h : isLaidOut kind fields = true) (f : String → String) :
    isLaidOut kind (fields.map fun field =>
      (field.1, renameIn f (Tree.names (.node kind fields) field.1) field.2)) = true := by
  have hrespell := isLaidOut_respell (fun _ name => f name) kind (Tree.names (.node kind fields))
    [] fields
  rw [← h, ← hrespell]
  refine congrArg (isLaidOut kind) (List.map_congr_left fun field _ => ?_)
  rw [respellIn_eq_renameIn fun b _ => respellAt_eq_renameAt ..]

theorem varNamesBelow_of_branches {kind : String} {fields : List (String × Tree)}
    (h : isLaidOut kind fields = true) (hkind : kind ≠ "Identifier") (binding : Bool)
    (hbranches : ∀ b ∈ placedIn fields, ∀ binding, Natural varNamesAt binding b.2) :
    Natural varNamesBelow binding (.node kind fields) := by
  obtain ⟨found, hfound⟩ := concatNames_natural (placedIn fields)
    (fun f b => varNamesAt (renameAt f (Tree.names (.node kind fields) b.1.field) b.2))
    fun b hb => hbranches b hb (Tree.names (.node kind fields) b.1.field)
  refine ⟨found, fun f => ?_⟩
  rw [renameAt_node hkind, varNamesBelow_eq (isLaidOut_renameAt h f), placedIn_renameAt,
    List.map_map]
  exact hfound f

/-- The names that a node declares with `var` itself. -/
def ownVarNames (t : Tree) : Except Fault (List String) :=
  if t.kind? = some "VariableDeclaration" ∧ (t.get? "kind").bind Tree.text? = some "var" then do
    declaratorNames (← (← t.need "declarations").listed)
  else pure []

theorem ownVarNames_natural {kind : String} {fields : List (String × Tree)}
    (h : (Tree.node kind fields).isFormed = true) (binding : Bool) :
    Natural ownVarNames binding (.node kind fields) := by
  by_cases hkind : kind = "VariableDeclaration"
  · subst hkind
    by_cases hvar : ((Tree.node "VariableDeclaration" fields).get? "kind").bind Tree.text? =
        some "var"
    · refine (declarations_natural h).congr fun f => ?_
      rw [ownVarNames, kind?_renameAt, get?_kind_renameAt h, if_pos ⟨rfl, hvar⟩]
    · refine natural_nil fun f => ?_
      rw [ownVarNames, get?_kind_renameAt h, if_neg fun hboth => hvar hboth.2]
      rfl
  · refine natural_nil fun f => ?_
    rw [ownVarNames, kind?_renameAt, if_neg fun hboth => hkind (Option.some.inj hboth.1)]
    rfl

theorem varNamesAt_node {kind : String} (hkind : functionKinds.contains kind = false)
    (fields : List (String × Tree)) :
    varNamesAt (.node kind fields) =
      do return (← ownVarNames (.node kind fields)) ++ (← varNamesBelow (.node kind fields)) := by
  rw [varNamesAt, hkind, ownVarNames]
  simp only [Bool.false_eq_true, if_false, kind?, Option.some.injEq, varNamesBelow]
  split
  · simp only [bind_assoc]
  · rfl

/-- The `var` names of a formed part of a program are read naturally. -/
theorem varNamesAt_natural {t : Tree} (h : t.isFormed = true) (binding : Bool) :
    Natural varNamesAt binding t := by
  induction t using branch_induction generalizing binding with
  | step t ih =>
      cases hnode : t.isNode with
      | false =>
          refine natural_nil fun f => varNamesAt_of_not_node ?_
          rw [isNode, kind?_renameAt]
          exact hnode
      | true =>
          obtain ⟨kind, fields, rfl⟩ : ∃ kind fields, t = .node kind fields := by
            cases t with
            | node kind fields => exact ⟨kind, fields, rfl⟩
            | _ => cases hnode
          have hlaid := (isFormed_node.1 h).1
          cases hfunction : functionKinds.contains kind with
          | true =>
              refine natural_nil fun f => ?_
              have hkind : kind ≠ "Identifier" := by rintro rfl; simp [functionKinds] at hfunction
              rw [renameAt_node hkind, varNamesAt, hfunction, if_pos rfl]
          | false =>
              by_cases hkind : kind = "Identifier"
              · subst hkind
                obtain ⟨name, rfl⟩ := fields_of_identifier hlaid
                refine natural_nil fun f => ?_
                rw [renameAt, respellAt_identifier]
                rfl
              · obtain ⟨own, hown⟩ := ownVarNames_natural h binding
                obtain ⟨others, hothers⟩ := varNamesBelow_of_branches hlaid hkind binding
                  fun b hb binding => ih b hb (isFormed_branch h hb) binding
                refine ⟨own ++ others, fun f => ?_⟩
                have hown' := hown f
                have hothers' := hothers f
                rw [renameAt_node hkind] at hown' hothers' ⊢
                rw [varNamesAt_node hfunction, hown', hothers', List.map_append]
                rfl

theorem varNamesBelow_natural {t : Tree} (h : t.isFormed = true)
    (hkind : t.kind? ≠ some "Identifier") (binding : Bool) : Natural varNamesBelow binding t := by
  cases t with
  | node kind fields =>
      exact varNamesBelow_of_branches (isFormed_node.1 h).1 (fun heq => hkind (by rw [heq]; rfl))
        binding fun b hb binding => varNamesAt_natural (isFormed_branch h hb) binding
  | _ => exact natural_nil fun f => rfl

/-! ## Names of blocks -/

/-- The names a declaration declares for the block it stands in. -/
def declaredBy (t : Tree) : Except Fault (List String) := do
  match t.kind? with
  | some "VariableDeclaration" =>
    if isVarDeclaration t then return []
    else Tree.declaratorNames (← (← t.need "declarations").listed)
  | some "FunctionDeclaration" | some "ClassDeclaration" =>
    if t.has "id" then return [← t.nameIn "id"] else return []
  | some "ImportDeclaration" => importedNames (← (t.get "specifiers").items)
  | _ => return []

theorem lexicalNamesOf_eq (t : Tree) : lexicalNamesOf t = exportedStatement t >>= declaredBy := rfl

theorem declaredBy_other {kind : String} (hkind : kind ∉ ["VariableDeclaration",
    "FunctionDeclaration", "ClassDeclaration", "ImportDeclaration"]) (h : t.kind? = some kind) :
    declaredBy t = .ok [] := by
  simp only [List.mem_cons, List.not_mem_nil, or_false, not_or] at hkind
  rw [declaredBy, h]
  split <;> simp_all [pure, Except.pure]

theorem declaredBy_variables_natural {fields : List (String × Tree)}
    (h : (Tree.node "VariableDeclaration" fields).isFormed = true) :
    Natural declaredBy binding (.node "VariableDeclaration" fields) := by
  cases hvar : isVarDeclaration (.node "VariableDeclaration" fields) with
  | true =>
      refine natural_nil fun f => ?_
      simp only [declaredBy, kind?, isVarDeclaration, get?_kind_renameAt h]
      rw [isVarDeclaration] at hvar
      rw [hvar]
      rfl
  | false =>
      refine (declarations_natural h).congr fun f => ?_
      simp only [declaredBy, kind?, isVarDeclaration, get?_kind_renameAt h]
      rw [isVarDeclaration] at hvar
      rw [hvar]
      rfl

/-- The name a node has of its own, if it has one. -/
def ownNames (t : Tree) : Except Fault (List String) :=
  if t.has "id" then do return [← t.nameIn "id"] else return []

theorem ownNames_natural {kind : String} {fields : List (String × Tree)}
    (h : (Tree.node kind fields).isFormed = true) (hkind : kind ≠ "Identifier")
    (hslot : (layouts kind).map (fun layout => layout.lookup "id") = [some (.maybe ["Identifier"])])
    (hplace : Tree.names (.node kind fields) "id" = true) :
    Natural ownNames binding (.node kind fields) := by
  obtain ⟨id, hid, haccepts, hformed⟩ := lookup_of_isFormed h "id" (.maybe ["Identifier"]) hslot
  rcases accepts_maybe.1 haccepts with rfl | hany
  · refine natural_nil fun f => ?_
    have hget := get_renameAt kind hkind (by decide) hid f binding
    rw [ownNames, has, hget]
    rfl
  · refine (nameIn_natural hkind (by decide) hid hformed hany hplace).congr fun f => ?_
    have hget := get_renameAt kind hkind (by decide) hid f binding
    have hset : (renameIn f (Tree.names (.node kind fields) "id") id).isSet = true := by
      obtain ⟨kind', fields', rfl, -⟩ := isAny_iff.1 hany
      rw [renameIn_node, renameAt, respellAt]
      split <;> rfl
    rw [ownNames, has, hget, hset, if_pos rfl]

theorem specifierName_natural (h : t.isFormed = true) (hany : t.isAny importKinds = true)
    (binding : Bool) : Natural (fun t => do return [← t.nameIn "local"]) binding t := by
  obtain ⟨kind, fields, rfl, hkind⟩ := isAny_iff.1 hany
  have hslot : (layouts kind).map (fun layout => layout.lookup "local") =
      [some (.one ["Identifier"])] := by
    simp only [importKinds, List.mem_cons, List.not_mem_nil, or_false] at hkind
    rcases hkind with rfl | rfl | rfl <;> rfl
  have hplace : Tree.names (.node kind fields) "local" = true := by
    simp only [importKinds, List.mem_cons, List.not_mem_nil, or_false] at hkind
    rcases hkind with rfl | rfl | rfl <;> rfl
  obtain ⟨value, hvalue, haccepts, hformed⟩ := lookup_of_isFormed h "local" _ hslot
  have hne : kind ≠ "Identifier" := by rintro rfl; simp [importKinds] at hkind
  exact nameIn_natural hne (by decide) hvalue hformed haccepts hplace

theorem importedNames_natural (binding : Bool) {items : List Tree}
    (h : ∀ item ∈ items, item.isFormed = true ∧ item.isAny importKinds = true) :
    NaturalAll importedNames binding items := by
  have hcons : ∀ item rest, importedNames (item :: rest) =
      do return (← (do return [← item.nameIn "local"])) ++ (← importedNames rest) := by
    intro item rest
    rw [importedNames]
    cases item.nameIn "local" <;> rfl
  exact naturalAll_of_forall rfl hcons fun item hitem =>
    specifierName_natural (h item hitem).1 (h item hitem).2 binding

theorem declaredBy_imports_natural {fields : List (String × Tree)}
    (h : (Tree.node "ImportDeclaration" fields).isFormed = true) :
    Natural declaredBy binding (.node "ImportDeclaration" fields) := by
  obtain ⟨value, hvalue, haccepts, hformed⟩ :=
    lookup_of_isFormed h "specifiers" (.many importKinds) rfl
  obtain ⟨items, rfl, hkinds⟩ := accepts_many.1 haccepts
  obtain ⟨found, hfound⟩ := importedNames_natural true
    fun item hitem => ⟨isFormed_list.1 hformed item hitem, hkinds item hitem⟩
  refine ⟨found, fun f => ?_⟩
  have hget := get_renameAt "ImportDeclaration" (by decide) (by decide) hvalue f binding
  simp only [declaredBy, kind?, hget, renameIn_list, items_list]
  exact hfound f

theorem declaredBy_natural (h : t.isFormed = true) (hnode : t.isNode = true) (binding : Bool) :
    Natural declaredBy binding t := by
  cases t with
  | node kind fields =>
      by_cases hkind : kind ∈ ["VariableDeclaration", "FunctionDeclaration", "ClassDeclaration",
          "ImportDeclaration"]
      · simp only [List.mem_cons, List.not_mem_nil, or_false] at hkind
        rcases hkind with rfl | rfl | rfl | rfl
        · exact declaredBy_variables_natural h
        · refine (ownNames_natural h (by decide) rfl rfl).congr fun f => ?_
          rw [declaredBy, kind?_renameAt]
          rfl
        · refine (ownNames_natural h (by decide) rfl rfl).congr fun f => ?_
          rw [declaredBy, kind?_renameAt]
          rfl
        · exact declaredBy_imports_natural h
      · exact natural_nil fun f => declaredBy_other hkind (by rw [kind?_renameAt]; rfl)
  | _ => cases hnode

theorem needKind_node (kind : String) (fields : List (String × Tree)) :
    (Tree.node kind fields).needKind = .ok kind := by
  simp [needKind, need, get?, bind, Except.bind, pure, Except.pure]

theorem needKind_renameAt (kind : String) (fields : List (String × Tree)) (f : String → String) :
    (renameAt f binding (.node kind fields)).needKind = .ok kind := by
  rw [renameAt, respellAt]
  split <;> exact needKind_node ..

/-- The names a formed statement declares for its block are read naturally. -/
theorem lexicalNamesOf_natural (h : t.isFormed = true) (hany : t.isAny statementKinds = true)
    (binding : Bool) : Natural lexicalNamesOf binding t := by
  obtain ⟨kind, fields, rfl, hmem⟩ := isAny_iff.1 hany
  have hne : kind ≠ "Identifier" := by rintro rfl; simp [statementKinds] at hmem
  by_cases hexport : kind = "ExportNamedDeclaration" ∨ kind = "ExportDefaultDeclaration"
  · -- The statement is looked for behind the export.
    have hdeclaration : ∃ value, fields.lookup "declaration" = some value ∧
        value.isFormed = true ∧ (value = .null ∨ value.isNode = true) := by
      rcases hexport with rfl | rfl
      · obtain ⟨value, hvalue, haccepts, hformed⟩ :=
          lookup_of_isFormed h "declaration" (.maybe statementKinds) rfl
        exact ⟨value, hvalue, hformed, (accepts_maybe.1 haccepts).imp_right isNode_of_isAny⟩
      · obtain ⟨value, hvalue, haccepts, hformed⟩ := lookup_of_isFormed h "declaration"
          (.one ("FunctionDeclaration" :: "ClassDeclaration" :: expressionKinds)) rfl
        exact ⟨value, hvalue, hformed, .inr (isNode_of_isAny haccepts)⟩
    obtain ⟨value, hvalue, hformed, hshape⟩ := hdeclaration
    have hread : ∀ f, exportedStatement (renameAt f binding (.node kind fields)) =
        if (renameIn f (Tree.names (.node kind fields) "declaration") value).isSet then
          (renameIn f (Tree.names (.node kind fields) "declaration") value).withFields
        else .ok (.record []) := by
      intro f
      have hget := get_renameAt kind hne (by decide) hvalue f binding
      rw [exportedStatement, needKind_renameAt]
      simp only [bind, Except.bind, if_pos hexport, hget, pure, Except.pure]
    rcases hshape with rfl | hnode
    · refine natural_nil fun f => ?_
      rw [lexicalNamesOf_eq, hread]
      rfl
    · obtain ⟨found, hfound⟩ :=
        declaredBy_natural hformed hnode (Tree.names (.node kind fields) "declaration")
      refine ⟨found, fun f => ?_⟩
      rw [lexicalNamesOf_eq, hread, renameIn_of_isNode hnode, ← hfound f]
      obtain ⟨fields', heq⟩ : ∃ kind' fields', renameAt f
          (Tree.names (.node kind fields) "declaration") value = .node kind' fields' := by
        cases value with
        | node kind' fields' => rw [renameAt, respellAt]; split <;> exact ⟨_, _, rfl⟩
        | _ => cases hnode
      obtain ⟨fields'', heq⟩ := heq
      rw [heq]
      rfl
  · refine (declaredBy_natural h rfl binding).congr fun f => ?_
    rw [lexicalNamesOf_eq, exportedStatement, needKind_renameAt]
    simp only [bind, Except.bind, if_neg hexport, pure, Except.pure]

theorem lexicalNames_natural (binding : Bool) {items : List Tree}
    (h : ∀ item ∈ items, item.isFormed = true ∧ item.isAny statementKinds = true) :
    NaturalAll lexicalNames binding items :=
  naturalAll_of_forall rfl (fun _ _ => rfl)
    fun item hitem => lexicalNamesOf_natural (h item hitem).1 (h item hitem).2 binding

/-- The names of the statements in a field are read naturally. -/
theorem lexicalNames_field_natural {kind : String} (key : String) (hkind : kind ≠ "Identifier")
    (hkey : key ≠ "type") {fields : List (String × Tree)}
    (h : (Tree.node kind fields).isFormed = true)
    (hslot : (layouts kind).map (fun layout => layout.lookup key) = [some (.many statementKinds)])
    (binding : Bool) :
    Natural (fun t => do lexicalNames (← (t.get key).items)) binding (.node kind fields) := by
  obtain ⟨value, hvalue, haccepts, hformed⟩ := lookup_of_isFormed h key _ hslot
  obtain ⟨items, rfl, hkinds⟩ := accepts_many.1 haccepts
  obtain ⟨found, hfound⟩ := lexicalNames_natural (Tree.names (.node kind fields) key)
    fun item hitem => ⟨isFormed_list.1 hformed item hitem, hkinds item hitem⟩
  refine ⟨found, fun f => ?_⟩
  have hget := get_renameAt kind hkind hkey hvalue f binding
  simp only [hget, renameIn_list, items_list]
  exact hfound f

theorem caseNames_natural (binding : Bool) {items : List Tree}
    (h : ∀ item ∈ items, item.isFormed = true ∧ item.isAny ["SwitchCase"] = true) :
    NaturalAll caseNames binding items := by
  have hcons : ∀ item rest, caseNames (item :: rest) =
      do return (← (do lexicalNames (← ((← item.withFields).get "consequent").items))) ++
        (← caseNames rest) := by
    intro item rest
    rw [caseNames]
    simp only [bind_assoc]
  refine naturalAll_of_forall rfl hcons fun item hitem => ?_
  obtain ⟨hformed, hany⟩ := h item hitem
  obtain ⟨kind, fields, rfl, hkind⟩ := isAny_iff.1 hany
  obtain rfl := List.mem_singleton.1 hkind
  refine (lexicalNames_field_natural "consequent" (by decide) (by decide) hformed rfl
    binding).congr fun f => ?_
  rw [renameAt_node (by decide)]
  rfl

/-! ## Names of the other scopes -/

/-- The names the parameters of a function bind. -/
def paramNames (t : Tree) : Except Fault (List String) := do
  Tree.boundNamesOf (← (t.get "params").items)

/-- The `var` names in the body of a function. -/
def bodyNames (t : Tree) : Except Fault (List String) := do
  let body ← t.need "body"
  if (← body.needKind) = "BlockStatement" then varNamesBelow body else pure []

/-- The name a function expression has for itself. -/
def selfNames (t : Tree) : Except Fault (List String) :=
  if t.isKind "FunctionExpression" && t.has "id" then do pure [← t.nameIn "id"] else pure []

theorem functionNames_eq (t : Tree) : functionNames t =
    do return (← selfNames t) ++ (← paramNames t) ++ (← bodyNames t) := by
  have hvars : ∀ (body : Tree) (kind : String) (next : List String → Except Fault (List String)),
      ((if kind = "BlockStatement" then varNamesBelow body else pure []) >>= next) =
        if kind = "BlockStatement" then varNamesBelow body >>= next else pure [] >>= next := by
    intro body kind next
    split <;> rfl
  rw [functionNames, selfNames, paramNames, bodyNames]
  split <;> simp only [bind_assoc, hvars]

section Functions

variable {kind : String} {fields : List (String × Tree)}

theorem paramNames_natural (h : (Tree.node kind fields).isFormed = true)
    (hkind : kind ≠ "Identifier") (hplace : Tree.names (.node kind fields) "params" = true)
    (hslot : (layouts kind).map (fun layout => layout.lookup "params") =
      [some (.many expressionKinds)]) (binding : Bool) :
    Natural paramNames binding (.node kind fields) := by
  obtain ⟨value, hvalue, haccepts, hformed⟩ := lookup_of_isFormed h "params" _ hslot
  obtain ⟨items, rfl, hkinds⟩ := accepts_many.1 haccepts
  obtain ⟨found, hfound⟩ := boundNamesOf_natural fun item hitem =>
    ⟨isFormed_list.1 hformed item hitem, isNode_of_isAny (hkinds item hitem)⟩
  refine ⟨found, fun f => ?_⟩
  have hget := get_renameAt kind hkind (by decide) hvalue f binding
  rw [paramNames, hget, hplace, renameIn_list, items_list]
  exact hfound f

theorem functionParams_natural (h : (Tree.node kind fields).isFormed = true)
    (hfunction : kind ∈ functionKinds) (binding : Bool) :
    Natural paramNames binding (.node kind fields) := by
  simp only [functionKinds, List.mem_cons, List.not_mem_nil, or_false] at hfunction
  rcases hfunction with rfl | rfl | rfl <;> exact paramNames_natural h (by decide) rfl rfl binding

theorem bodyNames_natural (hkind : kind ≠ "Identifier")
    (hbody : ∃ body, fields.lookup "body" = some body ∧ body.isFormed = true ∧
      body.isNode = true) (binding : Bool) :
    Natural bodyNames binding (.node kind fields) := by
  obtain ⟨body, hvalue, hformed, hnode⟩ := hbody
  obtain ⟨kind', fields', rfl⟩ : ∃ kind' fields', body = .node kind' fields' := by
    cases body with
    | node kind' fields' => exact ⟨kind', fields', rfl⟩
    | _ => cases hnode
  have hneed := fun f => need_renameAt kind hkind (by decide) hvalue f binding
  by_cases hblock : kind' = "BlockStatement"
  · have hother : (Tree.node kind' fields').kind? ≠ some "Identifier" := by
      simp [kind?, hblock]
    obtain ⟨found, hfound⟩ :=
      varNamesBelow_natural hformed hother (Tree.names (.node kind fields) "body")
    refine ⟨found, fun f => ?_⟩
    rw [bodyNames, hneed f, renameIn_node]
    simp only [bind, Except.bind, needKind_renameAt, if_pos hblock]
    exact hfound f
  · refine natural_nil fun f => ?_
    rw [bodyNames, hneed f, renameIn_node]
    simp only [bind, Except.bind, needKind_renameAt, if_neg hblock]
    rfl

theorem selfNames_natural (h : (Tree.node kind fields).isFormed = true)
    (hkind : kind ≠ "Identifier") (binding : Bool) :
    Natural selfNames binding (.node kind fields) := by
  by_cases hexpression : kind = "FunctionExpression"
  · subst hexpression
    refine (ownNames_natural h hkind rfl rfl).congr fun f => ?_
    have hisKind : (renameAt f binding (.node "FunctionExpression" fields)).isKind
        "FunctionExpression" = true := by rw [isKind, kind?_renameAt]; rfl
    rw [selfNames, hisKind]
    rfl
  · refine natural_nil fun f => ?_
    have hisKind : (renameAt f binding (.node kind fields)).isKind "FunctionExpression" = false := by
      rw [isKind, kind?_renameAt]
      simpa [kind?] using hexpression
    rw [selfNames, hisKind]
    rfl

/-- The names a formed function declares are read naturally. -/
theorem functionNames_natural (h : (Tree.node kind fields).isFormed = true)
    (hfunction : kind ∈ functionKinds) (binding : Bool) :
    Natural functionNames binding (.node kind fields) := by
  have hkind : kind ≠ "Identifier" := by rintro rfl; simp [functionKinds] at hfunction
  have hparams := functionParams_natural h hfunction binding
  simp only [functionKinds, List.mem_cons, List.not_mem_nil, or_false] at hfunction
  have hbody : ∃ body, fields.lookup "body" = some body ∧ body.isFormed = true ∧
      body.isNode = true := by
    have hslot : ∃ kinds, (layouts kind).map (fun layout => layout.lookup "body") =
        [some (.one kinds)] := by
      rcases hfunction with rfl | rfl | rfl <;> exact ⟨_, rfl⟩
    obtain ⟨kinds, hslot⟩ := hslot
    obtain ⟨body, hvalue, haccepts, hformed⟩ := lookup_of_isFormed h "body" _ hslot
    exact ⟨body, hvalue, hformed, isNode_of_isAny haccepts⟩
  obtain ⟨own, hown⟩ := selfNames_natural h hkind binding
  obtain ⟨params, hparams⟩ := hparams
  obtain ⟨vars, hvars⟩ := bodyNames_natural hkind hbody binding
  refine ⟨own ++ params ++ vars, fun f => ?_⟩
  rw [functionNames_eq, hown f, hparams f, hvars f, List.map_append, List.map_append]
  rfl

end Functions

theorem loopNames_natural (h : t.isFormed = true) (hshape : t = .null ∨ t.isNode = true)
    (binding : Bool) : Natural loopNames binding t := by
  rcases hshape with rfl | hnode
  · exact natural_nil fun f => rfl
  · cases t with
    | node kind fields =>
        have hnotNull : ∀ f, (renameAt f binding (.node kind fields)).isNull = false := fun f => by
          rw [isNull_renameAt]
          rfl
        by_cases hkind : kind = "VariableDeclaration"
        · subst hkind
          refine (declaredBy_variables_natural h).congr fun f => ?_
          rw [loopNames, hnotNull, needKind_renameAt, declaredBy, kind?_renameAt]
          cases hvar : isVarDeclaration (renameAt f binding (.node "VariableDeclaration" fields)) <;>
            simp [bind, Except.bind, kind?]
        · refine natural_nil fun f => ?_
          rw [loopNames, hnotNull, needKind_renameAt]
          simp [bind, Except.bind, hkind, pure, Except.pure]
    | _ => cases hnode

/-- The names declared for a whole formed program are read naturally. -/
theorem programNames_natural {fields : List (String × Tree)}
    (h : (Tree.node "Program" fields).isFormed = true) (binding : Bool) :
    Natural programNames binding (.node "Program" fields) := by
  obtain ⟨lexical, hlexical⟩ :=
    lexicalNames_field_natural "body" (by decide) (by decide) h rfl binding
  obtain ⟨vars, hvars⟩ := varNamesBelow_natural h (by simp [kind?]) binding
  refine ⟨lexical ++ vars, fun f => ?_⟩
  have hlexical' : (((renameAt f binding (.node "Program" fields)).get "body").items >>=
      lexicalNames) = .ok (lexical.map f) := hlexical f
  rw [programNames, ← bind_assoc, hlexical', hvars f, List.map_append]
  rfl

/-- A reading of the names in one field of a node. -/
theorem natural_of_get {read : Tree → Except Fault (List String)} {kind : String} (key : String)
    (hkind : kind ≠ "Identifier") (hkey : key ≠ "type") {fields : List (String × Tree)}
    {value : Tree} (hvalue : fields.lookup key = some value)
    (hshape : value = .null ∨ value.isNode = true)
    (h : Natural read (Tree.names (.node kind fields) key) value) (binding : Bool) :
    Natural (fun t => read (t.get key)) binding (.node kind fields) := by
  obtain ⟨found, hfound⟩ := h
  refine ⟨found, fun f => ?_⟩
  have hget := get_renameAt kind hkind hkey hvalue f binding
  have hsame : renameIn f (Tree.names (.node kind fields) key) value =
      renameAt f (Tree.names (.node kind fields) key) value := by
    rcases hshape with rfl | hnode
    · rfl
    · exact renameIn_of_isNode hnode f
  simp only [hget, hsame]
  exact hfound f

/-- The kinds of nodes with a scope. -/
def scopeKinds : List String :=
  functionKinds ++ ["BlockStatement", "ForStatement", "ForInStatement", "ForOfStatement",
    "CatchClause", "SwitchStatement"]

/-- The names in the scope of a node of a kind that has one. -/
def scopeNames (t : Tree) : Except Fault (List String) :=
  (scopeNames? t).getD (.ok [])

theorem scopeNames?_eq (t : Tree) :
    scopeNames? t = if t.isAny scopeKinds then some (scopeNames t) else none := by
  rw [scopeNames, scopeNames?, isAny]
  cases t.kind? with
  | none => rfl
  | some kind =>
      simp only [Option.any_some, scopeKinds, List.contains_append, List.contains_cons,
        List.contains_nil, Bool.or_false, Bool.or_eq_true, beq_iff_eq]
      split_ifs <;> simp_all

theorem loopScope_natural {kind : String} (key : String) (hkind : kind ≠ "Identifier")
    (hkey : key ≠ "type") {fields : List (String × Tree)} {value : Tree}
    (hvalue : fields.lookup key = some value) (hformed : value.isFormed = true)
    (hshape : value = .null ∨ value.isNode = true)
    (heq : ∀ t, t.kind? = some kind → scopeNames t = loopNames (t.get key)) (binding : Bool) :
    Natural scopeNames binding (.node kind fields) := by
  refine (natural_of_get key hkind hkey hvalue hshape
    (loopNames_natural hformed hshape _) binding).congr fun f => ?_
  rw [heq _ (by rw [kind?_renameAt]; rfl)]

/-- The names in the scope of a formed node are read naturally. -/
theorem scopeNames_natural {kind : String} {fields : List (String × Tree)}
    (h : (Tree.node kind fields).isFormed = true) (hmem : kind ∈ scopeKinds) (binding : Bool) :
    Natural scopeNames binding (.node kind fields) := by
  rcases List.mem_append.1 hmem with hfunction | hother
  · refine (functionNames_natural h hfunction binding).congr fun f => ?_
    rw [scopeNames, scopeNames?, kind?_renameAt]
    simp only [kind?, List.contains_iff_mem.2 hfunction, if_true, Option.getD_some]
  · simp only [List.mem_cons, List.not_mem_nil, or_false] at hother
    rcases hother with rfl | rfl | rfl | rfl | rfl | rfl
    · refine (lexicalNames_field_natural "body" (by decide) (by decide) h rfl binding).congr
        fun f => ?_
      rw [scopeNames, scopeNames?, kind?_renameAt]
      rfl
    · obtain ⟨value, hvalue, haccepts, hformed⟩ := lookup_of_isFormed h "init"
        (.maybe ("VariableDeclaration" :: expressionKinds)) rfl
      have hshape := (accepts_maybe.1 haccepts).imp_right isNode_of_isAny
      exact loopScope_natural "init" (by decide) (by decide) hvalue hformed hshape
        (fun t ht => by rw [scopeNames, scopeNames?, ht]; rfl) binding
    · obtain ⟨value, hvalue, haccepts, hformed⟩ := lookup_of_isFormed h "left"
        (.one ("VariableDeclaration" :: expressionKinds)) rfl
      exact loopScope_natural "left" (by decide) (by decide) hvalue hformed
        (.inr (isNode_of_isAny haccepts))
        (fun t ht => by rw [scopeNames, scopeNames?, ht]; rfl) binding
    · obtain ⟨value, hvalue, haccepts, hformed⟩ := lookup_of_isFormed h "left"
        (.one ("VariableDeclaration" :: expressionKinds)) rfl
      exact loopScope_natural "left" (by decide) (by decide) hvalue hformed
        (.inr (isNode_of_isAny haccepts))
        (fun t ht => by rw [scopeNames, scopeNames?, ht]; rfl) binding
    · obtain ⟨value, hvalue, haccepts, hformed⟩ := lookup_of_isFormed h "param"
        (.one expressionKinds) rfl
      have hnode := isNode_of_isAny haccepts
      refine (natural_of_get "param" (by decide) (by decide) hvalue (.inr hnode)
        (boundNames_natural hformed (.inr hnode)) binding).congr fun f => ?_
      rw [scopeNames, scopeNames?, kind?_renameAt]
      rfl
    · obtain ⟨value, hvalue, haccepts, hformed⟩ := lookup_of_isFormed h "cases"
        (.many ["SwitchCase"]) rfl
      obtain ⟨items, rfl, hkinds⟩ := accepts_many.1 haccepts
      obtain ⟨found, hfound⟩ := caseNames_natural true
        fun item hitem => ⟨isFormed_list.1 hformed item hitem, hkinds item hitem⟩
      refine ⟨found, fun f => ?_⟩
      have hget := get_renameAt "SwitchStatement" (by decide) (by decide) hvalue f binding
      rw [scopeNames, scopeNames?, kind?_renameAt, hget, renameIn_list, items_list]
      exact hfound f

end NameRecovery.Scope
