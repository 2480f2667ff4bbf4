import NameRecovery.Proofs.Profile.Choice
import NameRecovery.Proofs.Scope.Run
import NameRecovery.Proofs.Table

/-!
# What the contexts of short names count

A walk through a tree meets its identifiers in document order.  A place where one names a
binding and says nothing itself is credited to the last meaningful name before it, and the
histogram counts the credits.

* `Row.Counts`, `Histogram.Counts` — tables that count credits, in the order of the first ones;
* `creditAt`, `credits` — which places of a walk are credited, and to which names;
* `Profile.Follows` — what a walk has seen so far, step by step;
* `observeAll_cases` — a whole walk, or the first identifier without a name;
* `Histogram.Counts.labels_ne_nil`, `longNames_keys` — every name that is counted has a label, and
  the declared ones among them get new names;
* `profile_counts` — what the histogram of a tree counts, and which names it gives labels.
-/

namespace NameRecovery

/-! ## First entries -/

/-- A value at the end of a list is a first one if there is no other before it. -/
theorem eraseDups_concat {α : Type} [DecidableEq α] (values : List α) (value : α) :
    (values ++ [value]).eraseDups =
      if value ∈ values then values.eraseDups else values.eraseDups ++ [value] := by
  rw [List.eraseDups_append, List.removeAll]
  by_cases h : value ∈ values
  · simp [h]
  · simp [h, List.eraseDups_cons]

theorem eraseDups_nodup {α : Type} [DecidableEq α] (values : List α) :
    values.eraseDups.Nodup := by
  induction values using List.reverseRecOn with
  | nil => exact List.nodup_nil
  | append_singleton values value ih =>
      rw [eraseDups_concat]
      split
      · exact ih
      · rename_i hnew
        have hapart : value ∉ values.eraseDups := fun h => hnew (List.mem_eraseDups.1 h)
        exact List.nodup_append.2 ⟨ih, List.nodup_singleton value, by
          rintro other hother _ hvalue rfl
          exact hapart (List.mem_singleton.1 hvalue ▸ hother)⟩

namespace Table

variable {α : Type}

theorem find?_of_mem {table : Table α} (hnodup : table.keys.Nodup) {key : String} {value : α}
    (h : (key, value) ∈ table) : table.find? key = some value := by
  induction table with
  | nil => exact absurd h List.not_mem_nil
  | cons entry rest ih =>
      obtain ⟨first, other⟩ := entry
      obtain ⟨hfirst, hrest⟩ := List.nodup_cons.1 hnodup
      rcases List.mem_cons.1 h with heq | h
      · obtain ⟨rfl, rfl⟩ := Prod.mk.inj heq
        simp [find?]
      · have hkey : key ∈ rest.map Prod.fst := List.mem_map_of_mem h
        have hne : (key == first) = false := by
          rw [beq_eq_false_iff_ne]
          exact ne_of_mem_of_not_mem hkey hfirst
        simpa [find?, List.lookup_cons, hne] using ih hrest h

end Table

/-! ## Tables of counts -/

/-- Does the row count the contexts, in the order in which each of them came first? -/
structure Row.Counts (contexts : List String) (row : Row) : Prop where
  keys_eq : row.keys = contexts.eraseDups
  find?_eq : ∀ context, row.find? context =
    if context ∈ contexts then some (contexts.count context : Int) else none

theorem Row.counts_nil : Row.Counts [] [] :=
  ⟨rfl, fun _ => rfl⟩

/-- One more context is counted. -/
theorem Row.Counts.credit {contexts : List String} {row : Row} (h : row.Counts contexts)
    (context : String) : (row.credit context).Counts (contexts ++ [context]) where
  keys_eq := by
    rw [Row.credit, Table.keys_put, h.keys_eq, eraseDups_concat]
    simp only [List.mem_eraseDups]
  find?_eq := by
    intro other
    rw [Row.credit, Table.find?_put, h.find?_eq, h.find?_eq]
    by_cases hother : other = context
    · subst hother
      by_cases hmem : other ∈ contexts
      · simp [hmem]
      · simp [hmem, List.count_eq_zero_of_not_mem hmem]
    · have hne : ¬ context = other := Ne.symm hother
      simp [hother, hne]

/-- The contexts a name is credited to, in order. -/
def contextsOf (credits : List (String × String)) (name : String) : List String :=
  (credits.filter fun credit => credit.1 = name).map Prod.snd

theorem contextsOf_concat (credits : List (String × String)) (name context other : String) :
    contextsOf (credits ++ [(name, context)]) other =
      if other = name then contextsOf credits other ++ [context] else contextsOf credits other := by
  by_cases h : other = name
  · simp [contextsOf, h]
  · have hne : ¬ name = other := Ne.symm h
    simp [contextsOf, h, hne]

theorem count_contextsOf (credits : List (String × String)) (name context : String) :
    (contextsOf credits name).count context = credits.count (name, context) := by
  induction credits using List.reverseRecOn with
  | nil => rfl
  | append_singleton credits credit ih =>
      obtain ⟨name', context'⟩ := credit
      rw [contextsOf_concat, List.count_append]
      by_cases h : name = name'
      · subst h
        by_cases hcontext : context' = context <;> simp [hcontext, ih]
      · have hne : ¬ name' = name := Ne.symm h
        simp [h, hne, ih]

/-- Does the histogram count the credits, in the order in which each name and each context of
it came first? -/
structure Histogram.Counts (credits : List (String × String)) (histogram : Histogram) : Prop where
  keys_eq : histogram.keys = (credits.map Prod.fst).eraseDups
  rows : ∀ name, Row.Counts (contextsOf credits name) ((histogram.find? name).getD [])

theorem Histogram.counts_nil : Histogram.Counts [] [] :=
  ⟨rfl, fun _ => Row.counts_nil⟩

/-- One more credit is counted. -/
theorem Histogram.Counts.credit {credits : List (String × String)} {histogram : Histogram}
    (h : histogram.Counts credits) (name context : String) :
    (histogram.credit name context).Counts (credits ++ [(name, context)]) where
  keys_eq := by
    rw [Histogram.credit, Table.keys_put, h.keys_eq, List.map_append]
    simp only [List.map_cons, List.map_nil, eraseDups_concat, List.mem_eraseDups]
  rows := by
    intro other
    rw [Histogram.credit, Table.find?_put, contextsOf_concat]
    by_cases hother : other = name
    · subst hother
      simpa using (h.rows other).credit context
    · simpa [hother] using h.rows other

/-- How often a name is counted in a context. -/
def Histogram.count (histogram : Histogram) (name context : String) : Int :=
  (((histogram.find? name).getD []).find? context).getD 0

namespace Histogram.Counts

variable {credits : List (String × String)} {histogram : Histogram}

theorem count_eq (h : histogram.Counts credits) (name context : String) :
    histogram.count name context = credits.count (name, context) := by
  rw [Histogram.count, (h.rows name).find?_eq, ← count_contextsOf]
  split
  · rfl
  · rename_i hnone
    simp [List.count_eq_zero_of_not_mem hnone]

theorem row_counts (h : histogram.Counts credits) {entry : String × Row}
    (hentry : entry ∈ histogram) : entry.2.Counts (contextsOf credits entry.1) := by
  have hnodup : histogram.keys.Nodup := h.keys_eq ▸ eraseDups_nodup _
  have hrow := h.rows entry.1
  rwa [Table.find?_of_mem hnodup hentry] at hrow

theorem row_ne_nil (h : histogram.Counts credits) {entry : String × Row}
    (hentry : entry ∈ histogram) : entry.2 ≠ [] := by
  intro hnil
  have hname : entry.1 ∈ credits.map Prod.fst := by
    rw [← List.mem_eraseDups, ← h.keys_eq]
    exact List.mem_map_of_mem hentry
  obtain ⟨credit, hcredit, hsame⟩ := List.mem_map.1 hname
  have hcontext : credit.2 ∈ contextsOf credits entry.1 :=
    List.mem_map_of_mem (List.mem_filter.2 ⟨hcredit, by simpa using hsame⟩)
  have hkeys := (h.row_counts hentry).keys_eq
  rw [hnil] at hkeys
  rw [← List.mem_eraseDups, ← hkeys] at hcontext
  exact absurd hcontext List.not_mem_nil

theorem cell_pos (h : histogram.Counts credits) {entry : String × Row}
    (hentry : entry ∈ histogram) {cell : String × Int} (hcell : cell ∈ entry.2) : 0 < cell.2 := by
  have hrow := h.row_counts hentry
  have hnodup : entry.2.keys.Nodup := hrow.keys_eq ▸ eraseDups_nodup _
  have hfind := hrow.find?_eq cell.1
  rw [Table.find?_of_mem hnodup hcell] at hfind
  split at hfind
  · rename_i hmem
    rw [Option.some.inj hfind]
    exact Int.natCast_pos.2 (List.count_pos_iff.2 hmem)
  · cases hfind

end Histogram.Counts

/-! ## The walk -/

/-- An identifier met on a walk. -/
structure Met where
  /-- Its name. -/
  name : String
  /-- Does it name a binding? -/
  isBinding : Bool

/-- What is met at a visited node, if it is an identifier with a name. -/
def Visit.met? (visit : Visit) : Option Met :=
  if visit.isIdentifier then
    (visit.node.get "name").text?.map fun name => ⟨name, visit.isBinding⟩
  else none

/-- The identifiers of a tree in document order. -/
def Tree.met (t : Tree) : List Met :=
  t.visits.filterMap Visit.met?

/-- Does a name say something: is it neither short nor on the stop list? -/
def isMeaningful (stoplist : List String) (name : String) : Bool :=
  !isShort name && !stoplist.contains name

/-- The last meaningful name that was met. -/
def lastMeaningful (stoplist : List String) (met : List Met) : Option String :=
  ((met.map Met.name).filter (isMeaningful stoplist)).getLast?

/-- What is credited at a place of a walk: the name there, if it names a binding and is not
meaningful, to the last meaningful name before that place. -/
def creditAt (stoplist : List String) (met : List Met) (place : Nat) :
    Option (String × String) := do
  let here ← met[place]?
  let context ← lastMeaningful stoplist (met.take place)
  if here.isBinding && !isMeaningful stoplist here.name then some (here.name, context) else none

/-- All credits of a walk, in order. -/
def credits (stoplist : List String) (met : List Met) : List (String × String) :=
  (List.range met.length).filterMap (creditAt stoplist met)

section Walk

variable {stoplist : List String} {met : List Met} {seen : Profile}

theorem lastMeaningful_concat (stoplist : List String) (met : List Met) (here : Met) :
    lastMeaningful stoplist (met ++ [here]) =
      if isMeaningful stoplist here.name then some here.name else lastMeaningful stoplist met := by
  rw [lastMeaningful, List.map_append, List.filter_append]
  by_cases h : isMeaningful stoplist here.name = true
  · simp [h]
  · simp [h, lastMeaningful]

/-- What comes later changes no credit. -/
theorem credits_concat (stoplist : List String) (met : List Met) (here : Met) :
    credits stoplist (met ++ [here]) =
      credits stoplist met ++ (creditAt stoplist (met ++ [here]) met.length).toList := by
  rw [credits, List.length_append, List.length_singleton, List.range_succ, List.filterMap_append]
  congr 1
  refine List.filterMap_congr fun place hplace => ?_
  have hbefore : place < met.length := List.mem_range.1 hplace
  rw [creditAt, creditAt, List.getElem?_append_left hbefore,
    List.take_append_of_le_length hbefore.le]

theorem creditAt_end (met : List Met) (here : Met) :
    creditAt stoplist (met ++ [here]) met.length =
      if here.isBinding && !isMeaningful stoplist here.name then
        (lastMeaningful stoplist met).map fun context => (here.name, context)
      else none := by
  rw [creditAt, List.getElem?_concat_length, List.take_left]
  cases lastMeaningful stoplist met <;> simp

/-- Has the profile seen just what was met? -/
structure Profile.Follows (stoplist : List String) (met : List Met) (seen : Profile) : Prop where
  last_eq : seen.last = lastMeaningful stoplist met
  counts : seen.histogram.Counts (credits stoplist met)

theorem Profile.follows_start (stoplist : List String) : Profile.Follows stoplist [] {} :=
  ⟨rfl, Histogram.counts_nil⟩

/-- One step of the walk: a meaningful name is remembered, and another one credited. -/
theorem Profile.Follows.observe (h : seen.Follows stoplist met) (here : Met) :
    (seen.observe stoplist here.name here.isBinding).Follows stoplist (met ++ [here]) := by
  have hmeaningful : (!isShort here.name && !stoplist.contains here.name) =
      isMeaningful stoplist here.name := rfl
  have hcredits := credits_concat stoplist met here
  have hlast := lastMeaningful_concat stoplist met here
  rw [creditAt_end] at hcredits
  rw [Profile.observe, hmeaningful]
  cases hknown : isMeaningful stoplist here.name with
  | true =>
      refine ⟨?_, ?_⟩
      · rw [hlast, if_pos hknown]
        rfl
      · simpa [hcredits, hknown] using h.counts
  | false =>
      simp only [hknown, Bool.not_false, Bool.and_true, Bool.false_eq_true, if_false]
        at hlast hcredits ⊢
      rw [← h.last_eq] at hlast hcredits
      cases hcontext : seen.last with
      | none =>
          refine ⟨hlast.symm, ?_⟩
          simpa [hcredits, hcontext] using h.counts
      | some context =>
          cases hbinding : here.isBinding with
          | true =>
              refine ⟨hcontext.symm.trans hlast.symm, ?_⟩
              simpa [hcredits, hcontext, hbinding] using h.counts.credit here.name context
          | false =>
              refine ⟨hlast.symm, ?_⟩
              simpa [hcredits, hbinding] using h.counts

/-- The name of an identifier can be read if it is a text. -/
theorem needText_cases {visit : Visit} (hidentifier : visit.isIdentifier = true) :
    (∃ fault, visit.node.needText "name" = .error fault) ∨
      ∃ name, visit.node.needText "name" = .ok name ∧
        visit.met? = some ⟨name, visit.isBinding⟩ := by
  rw [Visit.met?, if_pos hidentifier]
  rw [Visit.isIdentifier] at hidentifier
  cases hnode : visit.node with
  | node kind fields =>
      cases hname : (Tree.node kind fields).get? "name" with
      | none => exact .inl ⟨.missingField "name", by rw [Tree.needText, Tree.need, hname]; rfl⟩
      | some value =>
          cases value with
          | text name =>
              refine .inr ⟨name, ?_, ?_⟩
              · rw [Tree.needText, Tree.need, hname]
                rfl
              · simp [Tree.get, hname, Tree.text?]
          | _ =>
              refine .inl ⟨.wrongShape "a text", ?_⟩
              rw [Tree.needText, Tree.need, hname]
              rfl
  | _ =>
      rw [hnode] at hidentifier
      simp [Tree.isKind, Tree.kind?] at hidentifier

/-- **A whole walk**: it goes through all that is met, or fails at the first identifier that has
no name. -/
theorem observeAll_cases (visits : List Visit) (h : seen.Follows stoplist met) :
    (∃ fault, Tree.namesOfIdentifiers visits = .error fault ∧
        seen.observeAll stoplist visits = .error fault) ∨
      (Tree.namesOfIdentifiers visits = .ok ((visits.filterMap Visit.met?).map Met.name) ∧
        ∃ found, seen.observeAll stoplist visits = .ok found ∧
          found.Follows stoplist (met ++ visits.filterMap Visit.met?)) := by
  induction visits generalizing seen met with
  | nil => exact .inr ⟨rfl, seen, rfl, by simpa using h⟩
  | cons visit rest ih =>
      rw [Tree.namesOfIdentifiers, Profile.observeAll]
      cases hidentifier : visit.isIdentifier with
      | false =>
          have hnone : visit.met? = none := by simp [Visit.met?, hidentifier]
          simpa [List.filterMap_cons, hnone] using ih h
      | true =>
          rcases needText_cases hidentifier with ⟨fault, hfault⟩ | ⟨name, hname, hmet⟩
          · exact .inl ⟨fault, by rw [hfault]; rfl, by rw [hfault]; rfl⟩
          · rw [hname, List.filterMap_cons, hmet]
            rcases ih (h.observe ⟨name, visit.isBinding⟩) with
              ⟨fault, hfault, hseen⟩ | ⟨hnames, found, hfound, hfollows⟩
            · exact .inl ⟨fault, by simp [hfault, bind, Except.bind], hseen⟩
            · refine .inr ⟨by simp [hnames, bind, Except.bind, pure, Except.pure], found, hfound, ?_⟩
              simpa using hfollows

end Walk

/-! ## Labels -/

/-- Of the names with labels, those that are declared get new names. -/
theorem longNames_keys {labels : Table (List String)} (h : ∀ entry ∈ labels, entry.2 ≠ [])
    (separator : String) (declared : List String) :
    (longNames separator labels (some declared)).keys = labels.keys.filter declared.contains := by
  induction labels with
  | nil => rfl
  | cons entry rest ih =>
      have hrest := ih fun other hother => h other (List.mem_cons_of_mem _ hother)
      have hlabels : entry.2.isEmpty = false := by simpa using h entry List.mem_cons_self
      rw [Table.keys, Table.keys, longNames, List.filterMap_cons, List.map_cons, List.filter_cons]
      cases hdeclared : declared.contains entry.1 with
      | true =>
          simp only [hlabels, hdeclared, Bool.not_true, Bool.or_false, Bool.false_eq_true, if_false,
            if_true]
          exact congrArg (entry.1 :: ·) hrest
      | false =>
          simp only [hlabels, hdeclared, Bool.not_false, Bool.or_true, Bool.false_eq_true, if_false,
            if_true]
          exact hrest

namespace Histogram.Counts

variable {credits : List (String × String)} {histogram : Histogram}

/-- Every name that is counted gets a label. -/
theorem labels_ne_nil (h : histogram.Counts credits) (separator : String) :
    ∀ entry ∈ deriveLabels separator histogram, entry.2 ≠ [] := by
  intro entry hentry
  obtain ⟨row, hrow, rfl⟩ := List.mem_map.1 hentry
  exact mt (selectLabelsBy_eq_nil_iff ..).1 (h.row_ne_nil hrow)

theorem renamed_keys (h : histogram.Counts credits) (separator : String)
    (declared : List String) :
    (longNames separator (deriveLabels separator histogram) (some declared)).keys =
      histogram.keys.filter declared.contains := by
  have hkeys : (deriveLabels separator histogram).keys = histogram.keys := by
    rw [Table.keys, deriveLabels, List.map_map]
    rfl
  rw [longNames_keys (h.labels_ne_nil separator), hkeys]

end Histogram.Counts

/-! ## The histogram of a tree -/

/-- What a histogram tells of the identifiers met on a walk. -/
structure Histogram.Tells (stoplist : List String) (met : List Met) (histogram : Histogram) :
    Prop where
  /-- A name is counted in a context at the places where it is credited to it. -/
  count_eq : ∀ name context, histogram.count name context =
    (List.range met.length).countP fun place => creditAt stoplist met place = some (name, context)
  /-- The names stand in the order of their first credits. -/
  names_eq : histogram.keys = ((credits stoplist met).map Prod.fst).eraseDups
  /-- So do the contexts of every name. -/
  contexts_eq : ∀ entry ∈ histogram,
    entry.2.keys = (contextsOf (credits stoplist met) entry.1).eraseDups
  /-- Every name has a context. -/
  row_ne_nil : ∀ entry ∈ histogram, entry.2 ≠ []
  /-- Every context has been met. -/
  cell_pos : ∀ entry ∈ histogram, ∀ cell ∈ entry.2, 0 < cell.2
  /-- Every name gets a label. -/
  labels_ne_nil : ∀ separator, ∀ entry ∈ deriveLabels separator histogram, entry.2 ≠ []
  /-- The names that get new ones are those that are declared. -/
  renamed_eq : ∀ separator declared,
    (longNames separator (deriveLabels separator histogram) (some declared)).keys =
      histogram.keys.filter declared.contains

theorem Histogram.Counts.tells {stoplist : List String} {met : List Met} {histogram : Histogram}
    (h : histogram.Counts (credits stoplist met)) : histogram.Tells stoplist met where
  count_eq := by
    intro name context
    rw [h.count_eq, credits, List.count_filterMap]
    simp only [beq_eq_decide]
  names_eq := h.keys_eq
  contexts_eq := fun entry hentry => (h.row_counts hentry).keys_eq
  row_ne_nil := fun entry hentry => h.row_ne_nil hentry
  cell_pos := fun entry hentry cell hcell => h.cell_pos hentry hcell
  labels_ne_nil := h.labels_ne_nil
  renamed_eq := h.renamed_keys

/-- A tree has a histogram, which counts its credits, if all its identifiers have names. -/
theorem profile_cases (stoplist : List String) (t : Tree) :
    (∃ fault, t.identifierNames = .error fault ∧ profile stoplist t = .error fault) ∨
      ∃ histogram, t.identifierNames = .ok (t.met.map Met.name) ∧
        profile stoplist t = .ok histogram ∧ histogram.Counts (credits stoplist t.met) := by
  rw [Tree.identifierNames, profile]
  cases hwalk : t.walk with
  | error fault => exact .inl ⟨fault, rfl, rfl⟩
  | ok visits =>
      obtain rfl : t.visits = visits := by
        rw [Tree.walk] at hwalk
        cases hneed : t.need "type" with
        | error fault => rw [hneed] at hwalk; cases hwalk
        | ok value => rw [hneed] at hwalk; exact Except.ok.inj hwalk
      rcases observeAll_cases t.visits (Profile.follows_start stoplist) with
        ⟨fault, hnames, hseen⟩ | ⟨hnames, found, hfound, hfollows⟩
      · exact .inl ⟨fault, hnames, by simp only [bind, Except.bind, hseen]⟩
      · refine .inr ⟨found.histogram, hnames, ?_, hfollows.counts⟩
        simp only [bind, Except.bind, hfound]
        rfl

/-- All identifiers of a formed tree have names. -/
theorem profile_formed {t : Tree} (h : t.isFormed = true) (hnode : t.isNode = true)
    (stoplist : List String) : ∃ histogram, profile stoplist t = .ok histogram := by
  rcases profile_cases stoplist t with ⟨fault, hnames, -⟩ | ⟨histogram, -, hprofile, -⟩
  · obtain ⟨known, hknown, -⟩ := Tree.identifierNames_ok h hnode
    rw [hnames] at hknown
    cases hknown
  · exact ⟨histogram, hprofile⟩

/-- **The histogram of a tree counts its contexts exactly.**  Only a tree with an identifier that
has no name has no histogram; a formed tree has one. -/
theorem profile_counts (stoplist : List String) (t : Tree) :
    (∃ fault, t.identifierNames = .error fault ∧ profile stoplist t = .error fault ∧
        ¬ (t.isFormed = true ∧ t.isNode = true)) ∨
      ∃ histogram, t.identifierNames = .ok (t.met.map Met.name) ∧
        profile stoplist t = .ok histogram ∧ histogram.Tells stoplist t.met := by
  rcases profile_cases stoplist t with
    ⟨fault, hnames, hprofile⟩ | ⟨histogram, hnames, hprofile, hcounts⟩
  · refine .inl ⟨fault, hnames, hprofile, ?_⟩
    rintro ⟨hformed, hnode⟩
    obtain ⟨histogram, hcounted⟩ := profile_formed hformed hnode stoplist
    rw [hprofile] at hcounted
    cases hcounted
  · exact .inr ⟨histogram, hnames, hprofile, hcounts.tells⟩

end NameRecovery
