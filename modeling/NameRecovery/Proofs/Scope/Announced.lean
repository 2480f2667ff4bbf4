import NameRecovery.Proofs.Renaming
import NameRecovery.Proofs.Scope.Declared

/-!
# Readings of a whole tree

What is read off every node of a tree, and put together in document order, follows a
renaming when it does so at each node.  The names that a tree declares anywhere are read
like that.

* `NaturalBy` — a reading of values that follows every renaming, given how these do;
* `Tree.gather` — a reading of all nodes of a tree;
* `gather_natural` — it follows a renaming if each node's does;
* `declaredNames_natural` — so do the names a tree declares.
-/

namespace NameRecovery

namespace Tree

/-- The reading of the value succeeds, and what is read follows every renaming in the given
way. -/
def NaturalBy {α : Type} (act : (String → String) → α → α)
    (read : Tree → Except Fault (List α)) (binding : Bool) (t : Tree) : Prop :=
  ∃ found : List α, ∀ f, read (renameAt f binding t) = .ok (found.map (act f))

/-- The readings of the visited nodes, in order. -/
def gatherIn {α : Type} (read : Tree → Except Fault (List α)) :
    List Visit → Except Fault (List α)
  | [] => .ok []
  | visit :: rest => do
    return (← read visit.node) ++ (← gatherIn read rest)

/-- The readings of all nodes of a tree, in document order. -/
def gather {α : Type} (read : Tree → Except Fault (List α)) (t : Tree) :
    Except Fault (List α) := do
  gatherIn read (← t.walk)

variable {α : Type} {act : (String → String) → α → α} {read : Tree → Except Fault (List α)}

theorem gatherIn_append {visits visits' : List Visit} {found found' : List α}
    (h : gatherIn read visits = .ok found) (h' : gatherIn read visits' = .ok found') :
    gatherIn read (visits ++ visits') = .ok (found ++ found') := by
  induction visits generalizing found with
  | nil =>
      rw [← Except.ok.inj h]
      exact h'
  | cons visit rest ih =>
      rw [gatherIn] at h
      cases hfirst : read visit.node with
      | error e => rw [hfirst] at h; cases h
      | ok first =>
          cases hrest : gatherIn read rest with
          | error e => rw [hfirst, hrest] at h; cases h
          | ok others =>
              rw [hfirst, hrest] at h
              rw [List.cons_append, gatherIn, hfirst, ih hrest, ← Except.ok.inj h,
                List.append_assoc]
              rfl

/-- Parts that are read alike under all circumstances are so one after the other. -/
theorem gatherIn_flatMap {β γ : Type} (parts : List β) (visits : γ → β → List Visit)
    (outcome : γ → α → α)
    (h : ∀ b ∈ parts, ∃ found : List α, ∀ c,
      gatherIn read (visits c b) = .ok (found.map (outcome c))) :
    ∃ found : List α, ∀ c,
      gatherIn read (parts.flatMap (visits c)) = .ok (found.map (outcome c)) := by
  induction parts with
  | nil => exact ⟨[], fun _ => rfl⟩
  | cons b rest ih =>
      obtain ⟨first, hfirst⟩ := h b List.mem_cons_self
      obtain ⟨others, hothers⟩ := ih fun b' hb' => h b' (List.mem_cons_of_mem _ hb')
      refine ⟨first ++ others, fun c => ?_⟩
      rw [List.flatMap_cons, List.map_append]
      exact gatherIn_append (hfirst c) (hothers c)

/-- The readings do not depend on where the tree stands, and follow a renaming if those of
each node do. -/
theorem gatherIn_visitsAt
    (hread : ∀ t : Tree, t.isFormed = true → t.isNode = true → ∀ binding,
      NaturalBy act read binding t)
    {t : Tree} (h : t.isFormed = true) (binding : Bool) :
    ∃ found : List α, ∀ f spot,
      gatherIn read ((renameAt f binding t).visitsAt spot) = .ok (found.map (act f)) := by
  induction t using branch_induction generalizing binding with
  | step t ih =>
      cases hnode : t.isNode with
      | false =>
          refine ⟨[], fun f spot => ?_⟩
          rw [visitsAt_of_not_node (by rw [isNode, kind?_renameAt]; exact hnode)]
          rfl
      | true =>
          obtain ⟨own, hown⟩ := hread t h hnode binding
          cases t with
          | node kind fields =>
              have hlaid := (isFormed_node.1 h).1
              by_cases hkind : kind = "Identifier"
              · subst hkind
                obtain ⟨name, rfl⟩ := fields_of_identifier hlaid
                refine ⟨own, fun f spot => ?_⟩
                have hself := hown f
                rw [renameAt, respellAt_identifier] at hself ⊢
                have hvisits : ∀ name', (Tree.node "Identifier" [("name", .text name')]).visitsAt
                    spot = [⟨.node "Identifier" [("name", .text name')], spot.parent, spot.field,
                      spot.path⟩] := by
                  intro name'
                  rw [visitsAt_node rfl]
                  rfl
                rw [hvisits, gatherIn, hself]
                simp [gatherIn, bind, Except.bind, pure, Except.pure]
              · obtain ⟨below, hbelow⟩ := gatherIn_flatMap (placedIn fields)
                  (fun (c : (String → String) × Spot) b =>
                    visitsAt (spotAt (renameAt c.1 binding (.node kind fields)) c.2.path b.1)
                      (renameAt c.1 (names (.node kind fields) b.1.field) b.2))
                  (fun c => act c.1)
                  fun b hb =>
                    (ih b hb (isFormed_branch h hb) (names (.node kind fields) b.1.field)).imp
                      fun found hfound c => hfound c.1 _
                refine ⟨own ++ below, fun f spot => ?_⟩
                have hself := hown f
                have hparts := hbelow (f, spot)
                rw [renameAt_node hkind] at hself hparts ⊢
                rw [visitsAt_node (Scope.isLaidOut_renameAt hlaid f), gatherIn, hself,
                  Scope.placedIn_renameAt, List.flatMap_map, hparts, List.map_append]
                rfl
          | _ => cases hnode

/-- **What is read off all nodes follows a renaming** if what is read off each node does. -/
theorem gather_natural
    (hread : ∀ t : Tree, t.isFormed = true → t.isNode = true → ∀ binding,
      NaturalBy act read binding t)
    {t : Tree} (h : t.isFormed = true) (hnode : t.isNode = true) :
    NaturalBy act (gather read) true t := by
  obtain ⟨found, hfound⟩ := gatherIn_visitsAt hread h true
  refine ⟨found, fun f => ?_⟩
  have hvisits := hfound f ⟨none, none, []⟩
  cases hrenamed : renameAt f true t with
  | node kind fields =>
      rw [hrenamed] at hvisits
      rw [gather, walk_node]
      exact hvisits
  | _ =>
      have hkind := kind?_renameAt f true t
      rw [hrenamed] at hkind
      rw [isNode, ← hkind] at hnode
      cases hnode

end Tree

/-! ## Declared names -/

namespace Scope

open NameRecovery.Tree

theorem namesDeclaredIn_eq (visits : List Visit) :
    namesDeclaredIn visits = gatherIn namesDeclaredBy visits := by
  induction visits with
  | nil => rfl
  | cons visit rest ih => rw [namesDeclaredIn, gatherIn, ih]

/-- The kinds of nodes that declare names. -/
def announcingKinds : List String :=
  "VariableDeclarator" :: "CatchClause" :: (functionKinds ++ (classKinds ++ importKinds))

section Node

variable {t : Tree} {kind : String}

theorem namesDeclaredBy_function (hkind : t.kind? = some kind) (h : kind ∈ functionKinds) :
    t.namesDeclaredBy = do return (← ownNames t) ++ (← paramNames t) := by
  have hother : kind ≠ "VariableDeclarator" := by rintro rfl; simp [functionKinds] at h
  rw [namesDeclaredBy, hkind]
  simp only [if_neg hother, List.contains_iff_mem.2 h, if_true, paramNames]
  rw [ownNames]
  split <;> simp only [bind_assoc, pure_bind]

theorem namesDeclaredBy_class (hkind : t.kind? = some kind) (h : kind ∈ classKinds) :
    t.namesDeclaredBy = ownNames t := by
  simp only [classKinds, List.mem_cons, List.not_mem_nil, or_false] at h
  rcases h with rfl | rfl <;> rw [namesDeclaredBy, hkind] <;> rfl

theorem namesDeclaredBy_import (hkind : t.kind? = some kind) (h : kind ∈ importKinds) :
    t.namesDeclaredBy = do return [← t.nameIn "local"] := by
  simp only [importKinds, List.mem_cons, List.not_mem_nil, or_false] at h
  rcases h with rfl | rfl | rfl <;> rw [namesDeclaredBy, hkind] <;> rfl

theorem namesDeclaredBy_other (hkind : t.kind? = some kind) (h : kind ∉ announcingKinds) :
    t.namesDeclaredBy = .ok [] := by
  simp only [announcingKinds, List.mem_append, List.mem_cons, not_or] at h
  obtain ⟨hdeclarator, hcatch, hfunction, hclass, himport⟩ := h
  rw [namesDeclaredBy, hkind]
  simp only [if_neg hdeclarator, if_neg hcatch, List.contains_iff_mem, if_neg hfunction,
    if_neg hclass, if_neg himport]

end Node

/-- The name of a function is read naturally; an arrow function has none. -/
theorem functionOwnNames_natural {kind : String} {fields : List (String × Tree)}
    (h : (Tree.node kind fields).isFormed = true) (hkind : kind ∈ functionKinds)
    (binding : Bool) : Natural ownNames binding (.node kind fields) := by
  simp only [functionKinds, List.mem_cons, List.not_mem_nil, or_false] at hkind
  rcases hkind with rfl | rfl | rfl
  · exact ownNames_natural h (by decide) rfl rfl
  · exact ownNames_natural h (by decide) rfl rfl
  · refine natural_nil fun f => ?_
    have harrow : IsA ["ArrowFunctionExpression"]
        (renameAt f binding (.node "ArrowFunctionExpression" fields)) := by
      refine ⟨?_, isFormed_respellAt h ..⟩
      rw [isAny, kind?_renameAt]
      rfl
    rw [ownNames, has_id_arrow harrow]
    rfl

/-- The names one node declares are read naturally. -/
theorem namesDeclaredBy_natural {t : Tree} (h : t.isFormed = true) (hnode : t.isNode = true)
    (binding : Bool) : Natural namesDeclaredBy binding t := by
  cases t with
  | node kind fields =>
      have hkind : ∀ f, (renameAt f binding (.node kind fields)).kind? = some kind := fun f => by
        rw [kind?_renameAt]
        rfl
      by_cases hannounces : kind ∈ announcingKinds
      · simp only [announcingKinds, List.mem_append, List.mem_cons] at hannounces
        rcases hannounces with rfl | rfl | hfunction | hclass | himport
        · obtain ⟨id, hid, haccepts, hformed⟩ :=
            lookup_of_isFormed h "id" (.one expressionKinds) rfl
          have hnode := isNode_of_isAny haccepts
          refine (natural_of_get "id" (by decide) (by decide) hid (.inr hnode)
            (boundNames_natural hformed (.inr hnode)) binding).congr fun f => ?_
          rw [namesDeclaredBy, hkind]
          rfl
        · obtain ⟨param, hparam, haccepts, hformed⟩ :=
            lookup_of_isFormed h "param" (.one expressionKinds) rfl
          have hnode := isNode_of_isAny haccepts
          refine (natural_of_get "param" (by decide) (by decide) hparam (.inr hnode)
            (boundNames_natural hformed (.inr hnode)) binding).congr fun f => ?_
          rw [namesDeclaredBy, hkind]
          rfl
        · obtain ⟨own, hown⟩ := functionOwnNames_natural h hfunction binding
          obtain ⟨params, hparams⟩ := functionParams_natural h hfunction binding
          refine ⟨own ++ params, fun f => ?_⟩
          rw [namesDeclaredBy_function (hkind f) hfunction, hown f, hparams f, List.map_append]
          rfl
        · have hown : Natural ownNames binding (.node kind fields) := by
            simp only [classKinds, List.mem_cons, List.not_mem_nil, or_false] at hclass
            rcases hclass with rfl | rfl <;> exact ownNames_natural h (by decide) rfl rfl
          exact hown.congr fun f => namesDeclaredBy_class (hkind f) hclass
        · have hany : (Tree.node kind fields).isAny importKinds = true :=
            isAny_iff.2 ⟨kind, fields, rfl, himport⟩
          exact (specifierName_natural h hany binding).congr fun f =>
            namesDeclaredBy_import (hkind f) himport
      · exact natural_nil fun f => namesDeclaredBy_other (hkind f) hannounces
  | _ => cases hnode

/-- The names a tree declares anywhere are read naturally. -/
theorem declaredNames_natural {t : Tree} (h : t.isFormed = true) (hnode : t.isNode = true) :
    Natural declaredNames true t := by
  have hnames : ∀ t : Tree, t.declaredNames = gather namesDeclaredBy t := fun t => by
    simp only [declaredNames, gather, namesDeclaredIn_eq]
  have hgather : NaturalBy (fun f => f) (gather namesDeclaredBy) true t :=
    gather_natural (fun t h hnode binding => namesDeclaredBy_natural h hnode binding) h hnode
  obtain ⟨found, hfound⟩ := hgather
  exact ⟨found, fun f => (hnames _).trans (hfound f)⟩

end Scope

end NameRecovery
