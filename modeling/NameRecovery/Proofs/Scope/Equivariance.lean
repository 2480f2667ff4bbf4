import NameRecovery.Proofs.Scope.Announced
import NameRecovery.Proofs.Scope.Reanalysis

/-!
# Scope analysis under a renaming

A renaming after a table reaches every place from which a name is read: those where scopes
declare names, and those where names are mentioned.  If it keeps the names of a program
apart, the renamed program has the same scopes, and every mention means what it meant.

* `freeNames_regular` — the free names of a program, read off the mentions in their scopes;
* `meaning_rename` — a renaming that keeps names apart renames what mentions mean;
* `freeNames_renamed` — it renames the free names;
* `rename_commutes_with_analysis` — it renames the free and the declared names, and the
  table read backwards undoes it.
-/

namespace NameRecovery

open NameRecovery.Tree

/-! ## Tables that keep names apart -/

/-- Does the table give different names of the tree different new names? -/
def Table.KeepsApart (table : Table String) (t : Tree) : Prop :=
  ∀ o ∈ t.occurrences, ∀ o' ∈ t.occurrences, table.spell o.2 = table.spell o'.2 → o.2 = o'.2

/-- The table read backwards: the new names of the names of a tree, each with the old one. -/
def Table.backwards (table : Table String) (t : Tree) : Table String :=
  Table.ofList (t.occurrences.map fun o => (table.spell o.2, o.2))

theorem Table.spell_backwards {table : Table String} {t : Tree} (h : table.KeepsApart t)
    {o : Path × String} (ho : o ∈ t.occurrences) :
    (table.backwards t).spell (table.spell o.2) = o.2 := by
  have hhas : (table.backwards t).has (table.spell o.2) = true := by
    rw [backwards, Table.has_ofList, List.any_map]
    exact List.any_eq_true.2 ⟨o, ho, by simp⟩
  obtain ⟨name, hname⟩ := (Table.has_eq_true_iff _ _).1 hhas
  obtain ⟨o', ho', heq⟩ := List.mem_map.1 (Table.mem_ofList (Table.mem_of_find? hname))
  obtain ⟨hspell, rfl⟩ := Prod.mk.inj heq
  rw [spell, hname]
  exact h o' ho' o ho hspell

namespace Scope

/-! ## Free names -/

/-- Sorted names do not depend on the order they had before. -/
theorem sorted_congr {names names' : List String} (h : names.Perm names') :
    sorted names = sorted names' := by
  have hsorted : ∀ names : List String, (sorted names).Pairwise (· ≤ ·) := by
    intro names
    have hpairs : (sorted names).Pairwise fun a b => decide (a ≤ b) = true :=
      List.pairwise_mergeSort
        (fun a b c hab hbc => by
          simp only [decide_eq_true_eq] at hab hbc ⊢
          exact String.le_trans hab hbc)
        (fun a b => by simpa using String.le_total a b) names
    simp only [decide_eq_true_eq] at hpairs
    exact hpairs
  refine List.Perm.eq_of_pairwise (fun a b _ _ => String.le_antisymm) (hsorted names)
    (hsorted names') ?_
  exact (List.mergeSort_perm names _).trans (h.trans (List.mergeSort_perm names' _).symm)

/-- The free names of a program are those of the mentions that no scope around them
declares. -/
theorem freeNames_regular {t : Tree} {names : List String} {body : List Event}
    (h : t.isProgram = true) (hregular : Regular t names body) :
    freeNames t = .ok (sorted (((contexts [([], names)] body).map fun m =>
      (m.path, m.referent)).foldl noteFree [])) := by
  obtain ⟨res, dry, real, hruns⟩ := runs_program h
  obtain ⟨names', body', hregular', hreferents⟩ := hruns.referents_eq
  obtain ⟨hnames, rfl⟩ := List.cons.inj (hregular'.events_eq.symm.trans hregular.events_eq)
  obtain rfl := Event.declare.inj hnames
  rw [hruns.free_names, hruns.globals_eq, hruns.notes_free.free, hreferents]

/-! ## Renamed mentions -/

/-- What a mention means, with its name renamed. -/
def Referent.rename (f : String → String) : Referent → Referent
  | .bound scope name => .bound scope (f name)
  | .free name => .free (f name)

/-- A renaming that keeps a name apart from those the scopes declare renames what a mention of
it means. -/
theorem meaning_rename {f : String → String} {stack : Stack} {n : String}
    (h : ∀ scope ∈ stack, ∀ k ∈ scope.2, f k = f n → k = n) :
    meaning (Stack.rename f stack) (f n) = (meaning stack n).rename f := by
  induction stack with
  | nil => rfl
  | cons scope rest ih =>
      have hrest := ih fun scope' hscope' => h scope' (List.mem_cons_of_mem _ hscope')
      have hhere : (scope.2.map f).contains (f n) = scope.2.contains n := by
        rw [Bool.eq_iff_iff, List.contains_iff_mem, List.contains_iff_mem]
        refine ⟨fun hmem => ?_, List.mem_map_of_mem⟩
        obtain ⟨k, hk, heq⟩ := List.mem_map.1 hmem
        exact h scope List.mem_cons_self k hk heq ▸ hk
      simp only [meaning, Stack.rename, List.map_cons, List.find?_cons, hhere] at hrest ⊢
      cases scope.2.contains n with
      | true => rfl
      | false => exact hrest

/-- Free names are noted alike before and after a renaming that keeps them apart. -/
theorem foldl_noteFree_rename {f : String → String} {known : List String}
    (hinj : ∀ a ∈ known, ∀ b ∈ known, f a = f b → a = b) {referents : List (Path × Referent)}
    (hreferents : ∀ r ∈ referents, r.2.name ∈ known) {free : List String}
    (hfree : ∀ n ∈ free, n ∈ known) :
    (referents.map fun r => (r.1, r.2.rename f)).foldl noteFree (free.map f) =
      (referents.foldl noteFree free).map f := by
  induction referents generalizing free with
  | nil => rfl
  | cons r rest ih =>
      obtain ⟨path, referent⟩ := r
      have hrest : ∀ r ∈ rest, r.2.name ∈ known :=
        fun r hr => hreferents r (List.mem_cons_of_mem _ hr)
      rw [List.map_cons, List.foldl_cons, List.foldl_cons]
      cases referent with
      | bound scope name => exact ih hrest hfree
      | free name =>
          have hname : name ∈ known := hreferents (path, .free name) List.mem_cons_self
          have hnoted : (free.map f).contains (f name) = free.contains name := by
            rw [Bool.eq_iff_iff, List.contains_iff_mem, List.contains_iff_mem]
            refine ⟨fun hmem => ?_, List.mem_map_of_mem⟩
            obtain ⟨k, hk, heq⟩ := List.mem_map.1 hmem
            exact hinj k (hfree k hk) name hname heq ▸ hk
          simp only [Referent.rename, noteFree, hnoted]
          split
          · exact ih hrest hfree
          · exact ih hrest fun n hn => (List.mem_cons.1 hn).elim (fun heq => heq ▸ hname) (hfree n)

/-- The names that the scopes around a mention declare are names of the program. -/
theorem Regular.stack_known {t : Tree} {names : List String} {body : List Event}
    (h : Regular t names body) {m : Mention} (hm : m ∈ contexts [([], names)] body)
    {scope : Path × List String} (hscope : scope ∈ m.stack) {n : String} (hn : n ∈ scope.2) :
    n ∈ mentionNames body := by
  rcases scope_cases h.nested hm hscope with rfl | henter
  · exact h.names_mentioned n hn
  · exact h.nested.names_mentioned _ henter n hn

/-- The names mentioned in a program are those of its occurrences. -/
theorem Regular.mem_mentionNames {t : Tree} {names : List String} {body : List Event}
    (h : Regular t names body) {n : String} :
    n ∈ mentionNames body ↔ ∃ o ∈ t.occurrences, o.2 = n := by
  rw [mentionNames_eq, h.mentions_eq, List.mem_map]

/-! ## Renamed programs -/

/-- **A renaming that keeps the names of a program apart renames its free names.** -/
theorem freeNames_renamed {t : Tree} (h : t.isProgram = true) {f : String → String}
    (hinj : ∀ o ∈ t.occurrences, ∀ o' ∈ t.occurrences, f o.2 = f o'.2 → o.2 = o'.2) :
    ∃ free, freeNames t = .ok free ∧ freeNames (t.renamed f) = .ok (sorted (free.map f)) := by
  have hrenamed : (t.renamed f).isProgram = true := isProgram_respell h
  obtain ⟨names, body, hregular⟩ := regular_events h
  obtain ⟨names', body', hregular'⟩ := regular_events hrenamed
  -- the events of the renamed program are those of the program, renamed
  have hevents := hregular'.events_eq.symm.trans (events_rename h f)
  rw [hregular.events_eq, List.map_cons] at hevents
  obtain ⟨hnames, rfl⟩ := List.cons.inj hevents
  obtain rfl : names' = names.map f := Event.declare.inj hnames
  have hknown : ∀ a ∈ mentionNames body, ∀ b ∈ mentionNames body, f a = f b → a = b := by
    intro a ha b hb heq
    obtain ⟨o, ho, rfl⟩ := hregular.mem_mentionNames.1 ha
    obtain ⟨o', ho', rfl⟩ := hregular.mem_mentionNames.1 hb
    exact hinj o ho o' ho' heq
  have hmentioned : ∀ m ∈ contexts [([], names)] body, m.name ∈ mentionNames body := by
    intro m hm
    rw [← contexts_names [([], names)] body]
    exact List.mem_map_of_mem hm
  have hcontexts : (contexts [([], names.map f)] (body.map (Event.rename f))).map
      (fun m => (m.path, m.referent)) =
        ((contexts [([], names)] body).map fun m => (m.path, m.referent)).map
          fun r => (r.1, r.2.rename f) := by
    rw [show [(([] : Path), names.map f)] = Stack.rename f [([], names)] from rfl, contexts_rename,
      List.map_map, List.map_map]
    refine List.map_congr_left fun m hm => Prod.ext rfl ?_
    exact meaning_rename fun scope hscope k hk =>
      hknown k (hregular.stack_known hm hscope hk) m.name (hmentioned m hm)
  have hnames : ∀ r ∈ (contexts [([], names)] body).map fun m => (m.path, m.referent),
      r.2.name ∈ mentionNames body := by
    intro r hr
    obtain ⟨m, hm, rfl⟩ := List.mem_map.1 hr
    rw [Mention.referent, meaning_name]
    exact hmentioned m hm
  have hnone : ∀ n ∈ ([] : List String), n ∈ mentionNames body :=
    fun n hn => absurd hn List.not_mem_nil
  have hnoted := foldl_noteFree_rename hknown hnames hnone
  rw [List.map_nil] at hnoted
  refine ⟨_, freeNames_regular h hregular, ?_⟩
  rw [freeNames_regular hrenamed hregular', hcontexts, hnoted]
  exact congrArg Except.ok (sorted_congr ((List.mergeSort_perm _ _).symm.map f))

end Scope

open Scope

/-- A program renamed after a table, and what is read off it before and after. -/
structure RenamedApart (t : Tree) (table : Table String) (free declared : List String) : Prop where
  /-- Renaming succeeds. -/
  succeeds : ∃ count, (t.rename table).2 = .ok count
  /-- The free names of the program. -/
  free_eq : freeNames t = .ok free
  /-- Those of the renamed program are their new names. -/
  free_renamed : freeNames (t.rename table).1 = .ok (sorted (free.map table.spell))
  /-- The names the program declares. -/
  declared_eq : t.declaredNames = .ok declared
  /-- Those the renamed program declares are their new names. -/
  declared_renamed : (t.rename table).1.declaredNames = .ok (declared.map table.spell)
  /-- Renaming the renamed program after the table read backwards gives the program. -/
  restored : ∃ count, (t.rename table).1.rename (table.backwards t) = (t, .ok count)

/-- **Scope analysis commutes with every renaming that keeps the names of a program apart**, and
the renaming can be undone. -/
theorem rename_commutes_with_analysis {t : Tree} (h : t.isProgram = true) {table : Table String}
    (hapart : table.KeepsApart t) : ∃ free declared, RenamedApart t table free declared := by
  have hformed := isFormed_of_isProgram h
  have hnode : t.isNode = true := by
    obtain ⟨fields, rfl, -⟩ := exists_fields_of_isProgram h
    rfl
  obtain ⟨count, hrename⟩ := rename_formed hformed hnode table
  obtain ⟨free, hfree, hfree'⟩ := freeNames_renamed h hapart
  obtain ⟨declared, hdeclared, hdeclared'⟩ := (declaredNames_natural hformed hnode).read_eq
  have hnode' : (t.renamed table.spell).isNode = true := by
    obtain ⟨fields, heq, -⟩ := exists_fields_of_isProgram (isProgram_respell h)
    rw [renamed, heq]
    rfl
  obtain ⟨count', hback⟩ :=
    rename_formed (isFormed_respellAt hformed true []) hnode' (table.backwards t)
  have hrestored : (t.renamed table.spell).renamed (table.backwards t).spell = t := by
    rw [renamed, renamed, respell_respell]
    exact respell_eq_self hformed fun o ho => Table.spell_backwards hapart ho
  change (t.renamed table.spell).rename _ = ((t.renamed table.spell).renamed _, _) at hback
  rw [hrestored] at hback
  refine ⟨free, declared,
    { succeeds := ⟨count, by rw [hrename]⟩
      free_eq := hfree
      free_renamed := by rw [hrename]; exact hfree'
      declared_eq := hdeclared
      declared_renamed := by rw [hrename]; exact hdeclared' table.spell
      restored := ⟨count', by rw [hrename]; exact hback⟩ }⟩

set_option maxRecDepth 100000 in
/-- The names of a function, its parameter and a global are exchanged in a ring, inside a
shorthand property too. -/
theorem rename_commutes_ring :
    ∃ t, Grammar.parse .script "function f(a) { var g = {a}; return g + b }" = .ok t ∧
      t.isProgram = true ∧
      Table.KeepsApart [("a", "b"), ("b", "f"), ("f", "a")] t ∧
      ∃ free declared, RenamedApart t [("a", "b"), ("b", "f"), ("f", "a")] free declared := by
  have hrun : (Grammar.parse .script "function f(a) { var g = {a}; return g + b }").toOption.any
      (fun t => t.isProgram && decide (t.occurrences.map Prod.snd =
        ["f", "a", "g", "a", "g", "b"])) = true := by
    decide +kernel
  cases hparse : Grammar.parse .script "function f(a) { var g = {a}; return g + b }" with
  | error e => rw [hparse] at hrun; cases hrun
  | ok t =>
      rw [hparse, Except.toOption, Option.any_some, Bool.and_eq_true, decide_eq_true_eq] at hrun
      obtain ⟨hprogram, hnames⟩ := hrun
      have hapart : Table.KeepsApart [("a", "b"), ("b", "f"), ("f", "a")] t := by
        intro o ho o' ho'
        have hall : ∀ n ∈ ["f", "a", "g", "a", "g", "b"], ∀ n' ∈ ["f", "a", "g", "a", "g", "b"],
            Table.spell [("a", "b"), ("b", "f"), ("f", "a")] n =
              Table.spell [("a", "b"), ("b", "f"), ("f", "a")] n' → n = n' := by
          decide +kernel
        exact hall o.2 (hnames ▸ List.mem_map_of_mem ho) o'.2 (hnames ▸ List.mem_map_of_mem ho')
      exact ⟨t, rfl, hprogram, hapart, rename_commutes_with_analysis hprogram hapart⟩

end NameRecovery
