import NameRecovery.Proofs.Grammar.Statement
import NameRecovery.Proofs.Scope.Separation

/-!
# A resolved program, analysed again

A declaration is respelled like any other mention: with the name of the binding it is
found in.  Usually that is the binding it declares.  But a `var` declaration belongs to
the whole function, and inside a scope that declares the same name, a clause that
catches an exception under it, say, it is found in that scope.  When no declaration of
a binding is found in the binding's own scope, the resolved program no longer declares
it there, and the mentions of it become free.

* `Declares` — the occurrences that declare for a scope;
* `Twice` — a program analysed before and after, by the labels of its occurrences;
* `resolve_keeps_bindings_iff` — the resolved program has the binding structure it had exactly
  if every binding that is mentioned has a declaration found in its own scope;
* `resolve_frees_hoisted` — a program in which one has none.
-/

namespace NameRecovery.Scope

open NameRecovery.Tree

/-! ## Meanings -/

theorem meaning_eq_bound {stack : Stack} {n m : String} {s : Path} :
    meaning stack n = .bound s m ↔ m = n ∧ ∃ inner declared outer,
      stack = inner ++ (s, declared) :: outer ∧ n ∈ declared ∧ ∀ scope ∈ inner, n ∉ scope.2 := by
  rw [meaning]
  cases hfind : stack.find? fun scope => scope.2.contains n with
  | none =>
      refine ⟨fun h => (by cases h), ?_⟩
      rintro ⟨-, inner, declared, outer, rfl, hn, -⟩
      have hnone := List.find?_eq_none.1 hfind (s, declared) (by simp)
      exact absurd (List.contains_iff_mem.2 hn) hnone
  | some scope =>
      obtain ⟨hscope, inner, outer, hstack, hinner⟩ := List.find?_eq_some_iff_append.1 hfind
      constructor
      · intro h
        obtain ⟨rfl, rfl⟩ := Referent.bound.inj h
        refine ⟨rfl, inner, scope.2, outer, hstack, List.contains_iff_mem.1 hscope, ?_⟩
        intro scope' hscope' hn
        have hnot := hinner scope' hscope'
        rw [List.contains_iff_mem.2 hn] at hnot
        cases hnot
      · rintro ⟨rfl, inner', declared, outer', hstack', hn, hinner'⟩
        have hfind' : stack.find? (fun scope => scope.2.contains m) = some (s, declared) := by
          rw [List.find?_eq_some_iff_append]
          refine ⟨List.contains_iff_mem.2 hn, inner', outer', hstack', fun scope' hscope' => ?_⟩
          have hnot := hinner' scope' hscope'
          simpa using hnot
        rw [hfind'] at hfind
        rw [← Option.some.inj hfind]

theorem meaning_eq_free {stack : Stack} {n m : String} :
    meaning stack n = .free m ↔ m = n ∧ ∀ scope ∈ stack, n ∉ scope.2 := by
  rw [meaning]
  cases hfind : stack.find? fun scope => scope.2.contains n with
  | none =>
      refine ⟨fun h => ⟨(Referent.free.inj h).symm, fun scope hscope hn => ?_⟩, fun h => by rw [h.1]⟩
      exact absurd (List.contains_iff_mem.2 hn) (List.find?_eq_none.1 hfind scope hscope)
  | some scope =>
      refine ⟨fun h => (by cases h), fun h => ?_⟩
      have hscope := List.find?_some hfind
      exact absurd (List.contains_iff_mem.1 hscope) (h.2 scope (List.mem_of_find?_eq_some hfind))

/-! ## Renamed contexts -/

/-- Scopes with their names renamed. -/
def Stack.rename (f : String → String) (stack : Stack) : Stack :=
  stack.map fun scope => (scope.1, scope.2.map f)

/-- What a mention means when all names are renamed. -/
def Mention.referentUnder (f : String → String) (m : Mention) : Referent :=
  meaning (Stack.rename f m.stack) (f m.name)

theorem contexts_rename (f : String → String) (stack : Stack) (events : List Event) :
    contexts (Stack.rename f stack) (events.map (Event.rename f)) =
      (contexts stack events).map fun m => ⟨m.path, f m.name, Stack.rename f m.stack⟩ := by
  induction events generalizing stack with
  | nil => rfl
  | cons event rest ih =>
      cases event with
      | mention path name => exact congrArg _ (ih stack)
      | declare _ | broken _ => exact ih stack
      | enter scope names => exact ih ((scope, names) :: stack)
      | leave =>
          have htail : (Stack.rename f stack).tail = Stack.rename f stack.tail := by
            cases stack <;> rfl
          rw [List.map_cons]
          simp only [Event.rename, contexts, htail]
          exact ih stack.tail

theorem mem_rename_stack {f : String → String} {stack : Stack} {scope : Path × List String}
    (h : scope ∈ Stack.rename f stack) :
    ∃ scope' ∈ stack, scope.1 = scope'.1 ∧ scope.2 = scope'.2.map f := by
  obtain ⟨scope', hscope', rfl⟩ := List.mem_map.1 h
  exact ⟨scope', hscope', rfl, rfl⟩

@[simp] theorem referentUnder_name (f : String → String) (m : Mention) :
    (m.referentUnder f).name = f m.name := meaning_name ..

/-! ## Declarations -/

/-- The names an event declares for the scope of the node at a path. -/
def Event.declaredFor (scope : Path) : Event → List String
  | .declare names => if scope = [] then names else []
  | .enter site names => if site = scope then names else []
  | _ => []

/-- The names declared for the scope of the node at a path. -/
def declaredIn (scope : Path) (events : List Event) : List String :=
  events.flatMap (Event.declaredFor scope)

theorem declaredIn_cons (s : Path) (event : Event) (rest : List Event) :
    declaredIn s (event :: rest) = event.declaredFor s ++ declaredIn s rest := rfl

/-- Does the occurrence at `site` declare its name for the scope?  The labels tell: the
scope then declares the label of the occurrence. -/
def Declares (t : Tree) (scope site : Path) : Prop :=
  t.label site ∈ declaredIn scope (events t.labelled)

theorem enter_unique {events : List Event} (h : (enteredScopes events).Nodup) {s : Path}
    {names names' : List String} (hmem : .enter s names ∈ events)
    (hmem' : .enter s names' ∈ events) : names = names' := by
  induction events with
  | nil => exact absurd hmem List.not_mem_nil
  | cons event rest ih =>
      have hscope : ∀ {names}, Event.enter s names ∈ rest → s ∈ enteredScopes rest :=
        fun hrest => List.mem_filterMap.2 ⟨_, hrest, rfl⟩
      rcases List.mem_cons.1 hmem with rfl | hin <;> rcases List.mem_cons.1 hmem' with heq | hin'
      · exact (Event.enter.inj heq).2.symm
      · exact absurd (hscope hin') (List.nodup_cons.1 h).1
      · subst heq
        exact absurd (hscope hin) (List.nodup_cons.1 h).1
      · have hrest : (enteredScopes rest).Nodup := by
          rw [enteredScopes, List.filterMap_cons] at h
          split at h
          · exact h
          · exact (List.nodup_cons.1 h).2
        exact ih hrest hin hin'

section Contexts

variable {labels : List String} {body : List Event} {m : Mention} {scope : Path × List String}

/-- The scopes around a mention are those of the program and those entered before. -/
theorem scope_cases (hnested : Nested body) (hm : m ∈ contexts [([], labels)] body)
    (hscope : scope ∈ m.stack) : scope = ([], labels) ∨ .enter scope.1 scope.2 ∈ body := by
  obtain ⟨inner, hstack, -, hentered⟩ := hnested.stack_scopes hm
  rw [hstack] at hscope
  rcases List.mem_append.1 hscope with hscope | hscope
  · exact .inr (hentered scope hscope)
  · exact .inl (List.mem_singleton.1 hscope)

/-- A scope around a mention declares what is declared for its node. -/
theorem mem_declaredIn (hnested : Nested body) (hscopes : ([] :: enteredScopes body).Nodup)
    (hm : m ∈ contexts [([], labels)] body) (hscope : scope ∈ m.stack) {l : String} :
    l ∈ declaredIn scope.1 (.declare labels :: body) ↔ l ∈ scope.2 := by
  have hroot : ∀ {names}, .enter [] names ∉ body := fun hmem =>
    (List.nodup_cons.1 hscopes).1 (List.mem_filterMap.2 ⟨_, hmem, rfl⟩)
  have hnodup := (List.nodup_cons.1 hscopes).2
  rw [declaredIn, List.flatMap_cons, List.mem_append, List.mem_flatMap]
  constructor
  · rintro (hl | ⟨e, he, hl⟩)
    · rw [Event.declaredFor] at hl
      split at hl
      · rename_i hnil
        rcases scope_cases hnested hm hscope with heq | hmem
        · rw [heq]
          exact hl
        · rw [hnil] at hmem
          exact absurd hmem hroot
      · exact absurd hl List.not_mem_nil
    · cases e with
      | enter site names =>
          rw [Event.declaredFor] at hl
          split at hl
          · rename_i hsite
            subst hsite
            rcases scope_cases hnested hm hscope with heq | hmem
            · rw [heq] at he
              exact absurd he hroot
            · rw [← enter_unique hnodup he hmem]
              exact hl
          · exact absurd hl List.not_mem_nil
      | declare names =>
          exact absurd (hnested.isPlain _ he) (by simp [Event.isPlain])
      | leave | mention _ _ | broken _ => exact absurd hl List.not_mem_nil
  · intro hl
    rcases scope_cases hnested hm hscope with heq | hmem
    · rw [heq] at hl ⊢
      left
      rw [Event.declaredFor, if_pos rfl]
      exact hl
    · exact .inr ⟨_, hmem, by rw [Event.declaredFor, if_pos rfl]; exact hl⟩

/-- What a scope around a mention declares is mentioned inside it. -/
theorem declared_inside (hnested : Nested body) (hlabels : ∀ l ∈ labels, l ∈ mentionNames body)
    (hm : m ∈ contexts [([], labels)] body) (hscope : scope ∈ m.stack) {l : String}
    (hl : l ∈ scope.2) : ∃ d ∈ contexts [([], labels)] body, d.name = l ∧ scope ∈ d.stack := by
  obtain ⟨inner, hstack⟩ := hnested.stack_suffix hm
  rw [hstack] at hscope
  rcases List.mem_append.1 hscope with hscope | hscope
  · obtain ⟨inner₁, outer, rfl⟩ := List.append_of_mem hscope
    rw [List.append_assoc, List.cons_append] at hstack
    obtain ⟨d, hd, hname, inner', hinner'⟩ := hnested.mentioned_inside hm hstack hl
    exact ⟨d, hd, hname, by rw [hinner']; simp⟩
  · rw [List.mem_singleton.1 hscope] at hl ⊢
    obtain ⟨d, hd, hname⟩ := mem_contexts_of_mem_mentionNames [([], labels)] (hlabels l hl)
    obtain ⟨inner', hinner'⟩ := hnested.stack_suffix hd
    exact ⟨d, hd, hname, by rw [hinner']; simp⟩

/-- A name that a scope declares is mentioned inside it. -/
theorem Nested.declared_mentioned {events : List Event} (h : Nested events) :
    ∀ (stack : Stack) {s : Path} {names : List String} {n : String},
      .enter s names ∈ events → n ∈ names →
      ∃ d ∈ contexts stack events, d.name = n ∧
        ∃ inner outer, d.stack = inner ++ (s, names) :: outer := by
  induction h with
  | nil => intro stack s names n hmem; exact absurd hmem List.not_mem_nil
  | mention path name =>
      intro stack s names n hmem
      exact absurd (List.mem_singleton.1 hmem) Event.noConfusion
  | @scope site names' body hbody hnames ih =>
      intro stack s names n hmem hn
      rw [contexts_scope hbody]
      rcases List.mem_cons.1 hmem with heq | hmem
      · obtain ⟨rfl, rfl⟩ := Event.enter.inj heq
        obtain ⟨d, hd, hname⟩ :=
          mem_contexts_of_mem_mentionNames ((s, names) :: stack) (hnames n hn)
        obtain ⟨inner, hinner⟩ := hbody.stack_suffix hd
        exact ⟨d, hd, hname, inner, stack, hinner⟩
      · rcases List.mem_append.1 hmem with hmem | hmem
        · exact ih _ hmem hn
        · exact absurd (List.mem_singleton.1 hmem) Event.noConfusion
  | append hfirst _ ih₁ ih₂ =>
      intro stack s names n hmem hn
      rw [contexts_append hfirst]
      rcases List.mem_append.1 hmem with hmem | hmem
      · obtain ⟨d, hd, hrest⟩ := ih₁ stack hmem hn
        exact ⟨d, List.mem_append_left _ hd, hrest⟩
      · obtain ⟨d, hd, hrest⟩ := ih₂ stack hmem hn
        exact ⟨d, List.mem_append_right _ hd, hrest⟩

/-- No two scopes around a mention belong to the same node. -/
theorem stack_sites_nodup (hnested : Nested body) (hscopes : ([] :: enteredScopes body).Nodup)
    (hm : m ∈ contexts [([], labels)] body) : (m.stack.map Prod.fst).Nodup := by
  obtain ⟨inner, hstack, hsub, -⟩ := hnested.stack_scopes hm
  rw [hstack, List.map_append, List.map_singleton, ← List.nodup_reverse, List.reverse_append]
  exact hscopes.sublist (hsub.cons_cons [])

theorem referentUnder_eq_bound {f : String → String} {s : Path} {n : String} :
    m.referentUnder f = .bound s n ↔ n = f m.name ∧ ∃ inner declared outer,
      m.stack = inner ++ (s, declared) :: outer ∧ f m.name ∈ declared.map f ∧
        ∀ scope ∈ inner, f m.name ∉ scope.2.map f := by
  rw [Mention.referentUnder, meaning_eq_bound]
  refine and_congr_right fun _ => ⟨?_, ?_⟩
  · rintro ⟨inner, declared, outer, hstack, hn, hinner⟩
    obtain ⟨inner', rest, hsplit, rfl, hrest⟩ := List.map_eq_append_iff.1 hstack
    obtain ⟨scope, outer', rfl, hscope, rfl⟩ := List.map_eq_cons_iff.1 hrest
    obtain ⟨rfl, rfl⟩ := Prod.mk.inj hscope
    exact ⟨inner', scope.2, outer', hsplit, hn,
      fun scope' hscope' => hinner _ (List.mem_map_of_mem hscope')⟩
  · rintro ⟨inner, declared, outer, hstack, hn, hinner⟩
    refine ⟨Stack.rename f inner, declared.map f, Stack.rename f outer, ?_, hn, ?_⟩
    · rw [hstack, Stack.rename, List.map_append, List.map_cons]
      rfl
    · intro scope hscope
      obtain ⟨scope', hscope', -, heq⟩ := mem_rename_stack hscope
      rw [heq]
      exact hinner scope' hscope'

theorem referentUnder_eq_free {f : String → String} {n : String} :
    m.referentUnder f = .free n ↔ n = f m.name ∧ ∀ scope ∈ m.stack, f m.name ∉ scope.2.map f := by
  rw [Mention.referentUnder, meaning_eq_free]
  refine and_congr_right fun _ => ⟨fun h scope hscope => ?_, fun h scope hscope => ?_⟩
  · exact h (scope.1, scope.2.map f) (List.mem_map_of_mem hscope)
  · obtain ⟨scope', hscope', -, heq⟩ := mem_rename_stack hscope
    rw [heq]
    exact h scope' hscope'

variable {f g : String → String}

/-- Under a renaming that separates what the mentions mean, a scope around a mention
declares the mention's new name exactly if one of its declarations means the same. -/
theorem mem_declared_iff (hnested : Nested body) (hlabels : ∀ l ∈ labels, l ∈ mentionNames body)
    (hseparate : ∀ m ∈ contexts [([], labels)] body, ∀ m' ∈ contexts [([], labels)] body,
      g m.name = g m'.name ↔ m.referentUnder f = m'.referentUnder f)
    (hm : m ∈ contexts [([], labels)] body) (hscope : scope ∈ m.stack) :
    g m.name ∈ scope.2.map g ↔ ∃ d ∈ contexts [([], labels)] body,
      d.name ∈ scope.2 ∧ d.referentUnder f = m.referentUnder f := by
  constructor
  · intro hmem
    obtain ⟨l, hl, hname⟩ := List.mem_map.1 hmem
    obtain ⟨d, hd, rfl, -⟩ := declared_inside hnested hlabels hm hscope hl
    exact ⟨d, hd, hl, (hseparate d hd m hm).1 hname⟩
  · rintro ⟨d, hd, hl, href⟩
    rw [← (hseparate d hd m hm).2 href]
    exact List.mem_map_of_mem hl

/-- A free mention stays free. -/
theorem free_again (hnested : Nested body) (hlabels : ∀ l ∈ labels, l ∈ mentionNames body)
    (hseparate : ∀ m ∈ contexts [([], labels)] body, ∀ m' ∈ contexts [([], labels)] body,
      g m.name = g m'.name ↔ m.referentUnder f = m'.referentUnder f)
    (hm : m ∈ contexts [([], labels)] body) {n : String} (hfree : m.referentUnder f = .free n) :
    m.referentUnder g = .free (g m.name) := by
  refine referentUnder_eq_free.2 ⟨rfl, fun scope hscope hmem => ?_⟩
  obtain ⟨d, hd, hl, href⟩ := (mem_declared_iff hnested hlabels hseparate hm hscope).1 hmem
  have hname : f d.name = f m.name := by
    rw [← referentUnder_name f d, href, referentUnder_name]
  have hnot := (referentUnder_eq_free.1 hfree).2 scope hscope
  rw [← hname] at hnot
  exact hnot (List.mem_map_of_mem hl)

/-- A mention is found in the scope it was found in before exactly if one of the scope's
declarations means the same as the mention. -/
theorem bound_again_iff (hnested : Nested body) (hlabels : ∀ l ∈ labels, l ∈ mentionNames body)
    (hscopes : ([] :: enteredScopes body).Nodup)
    (hseparate : ∀ m ∈ contexts [([], labels)] body, ∀ m' ∈ contexts [([], labels)] body,
      g m.name = g m'.name ↔ m.referentUnder f = m'.referentUnder f)
    (hm : m ∈ contexts [([], labels)] body) {s : Path} {n : String}
    (hbound : m.referentUnder f = .bound s n) :
    (∃ n', m.referentUnder g = .bound s n') ↔ ∃ d ∈ contexts [([], labels)] body,
      d.name ∈ declaredIn s (.declare labels :: body) ∧ d.referentUnder f = .bound s n := by
  obtain ⟨-, inner, declared, outer, hstack, hn, hinner⟩ := referentUnder_eq_bound.1 hbound
  have hscope : (s, declared) ∈ m.stack := by rw [hstack]; simp
  have hdeclared := @mem_declaredIn labels body m (s, declared) hnested hscopes hm hscope
  have hmem := mem_declared_iff hnested hlabels hseparate hm hscope
  -- No scope further in declares the new name, for its declaration would be found there.
  have hinside : ∀ scope ∈ inner, g m.name ∉ scope.2.map g := by
    intro scope hscope' hname
    have hin : scope ∈ m.stack := by rw [hstack]; exact List.mem_append_left _ hscope'
    obtain ⟨d, hd, hl, href⟩ := (mem_declared_iff hnested hlabels hseparate hm hin).1 hname
    have heq : f d.name = f m.name := by
      rw [← referentUnder_name f d, href, referentUnder_name]
    have hnot := hinner scope hscope'
    rw [← heq] at hnot
    exact hnot (List.mem_map_of_mem hl)
  constructor
  · rintro ⟨n', hbound'⟩
    obtain ⟨-, inner', declared', outer', hstack', hn', -⟩ := referentUnder_eq_bound.1 hbound'
    have hscope' : (s, declared') ∈ m.stack := by rw [hstack']; simp
    have hsame : (s, declared') = (s, declared) :=
      List.inj_on_of_nodup_map (stack_sites_nodup hnested hscopes hm) hscope' hscope rfl
    rw [(Prod.mk.inj hsame).2] at hn'
    obtain ⟨d, hd, hl, href⟩ := hmem.1 hn'
    exact ⟨d, hd, hdeclared.2 hl, href.trans hbound⟩
  · rintro ⟨d, hd, hl, href⟩
    refine ⟨g m.name, referentUnder_eq_bound.2 ⟨rfl, inner, declared, outer, hstack, ?_, hinside⟩⟩
    exact hmem.2 ⟨d, hd, hdeclared.1 hl, href.trans hbound.symm⟩

end Contexts

/-! ## Both analyses -/

section Analyses

variable {t : Tree} {res : Resolution} {dry real : Walk} {labels : List String}
  {body : List Event}

/-- The mentions of a respelled program are found as the labelled program says. -/
theorem Runs.referents_labelled {spell : Spelling} (h : t.isProgram = true)
    (hruns : Runs (t.respell spell) res dry real) (hregular : Regular t.labelled labels body) :
    dry.referents = (contexts [([], labels)] body).map fun m =>
      (m.path, m.referentUnder (t.spelledAs spell)) := by
  obtain ⟨names, body', hregular', hreferents⟩ := hruns.referents_eq
  have hevents := hregular'.events_eq
  rw [events_respell h, hregular.events_eq, List.map_cons] at hevents
  obtain ⟨hdeclare, rfl⟩ := List.cons.inj hevents
  obtain rfl : labels.map (t.spelledAs spell) = names := Event.declare.inj hdeclare
  have hcontexts := contexts_rename (t.spelledAs spell) [([], labels)] body
  rw [hreferents, show [([], labels.map (t.spelledAs spell))] =
    Stack.rename (t.spelledAs spell) [([], labels)] from rfl, hcontexts, List.map_map]
  rfl

/-- A mention of the labelled program is an occurrence under its label. -/
theorem occurrence_of_context (h : t.isProgram = true) (hregular : Regular t.labelled labels body)
    {m : Mention} (hm : m ∈ contexts [([], labels)] body) :
    ∃ name, (m.path, name) ∈ t.occurrences ∧ m.name = t.label m.path := by
  have hmention : (m.path, m.name) ∈ mentions body := by
    rw [← contexts_mentions [([], labels)]]
    exact List.mem_map.2 ⟨m, hm, rfl⟩
  rw [hregular.mentions_eq, occurrences_labelled (isFormed_of_isProgram h)] at hmention
  obtain ⟨o, ho, heq⟩ := List.mem_map.1 hmention
  obtain ⟨hpath, hname⟩ := Prod.mk.inj heq
  refine ⟨o.2, ?_, ?_⟩
  · rw [← hpath]
    exact ho
  · rw [← hname, hpath]

/-- How the real run spells an occurrence. -/
def Walk.spelling (w : Walk) : Spelling :=
  fun path name => (w.resolver.edits.lookup path).getD name

theorem occurrence_respelled (h : t.isProgram = true) (hruns : Runs t res dry real)
    (hregular : Regular t.labelled labels body) {m : Mention}
    (hm : m ∈ contexts [([], labels)] body) :
    (m.path, t.spelledAs real.spelling m.name) ∈ res.tree.occurrences := by
  have hformed := isFormed_of_isProgram h
  obtain ⟨name, ho, hname⟩ := occurrence_of_context h hregular hm
  rw [hruns.tree_eq_respell hformed, occurrences_respell hformed, hname]
  refine List.mem_map.2 ⟨_, ho, ?_⟩
  rw [spelledAs_label hformed real.spelling ho]
  rfl

theorem foldl_noteFree_congr {ms : List Mention} {f g : String → String}
    (h : ∀ m ∈ ms, ∀ free, noteFree free (m.path, m.referentUnder g) =
      noteFree free (m.path, m.referentUnder f)) (free : List String) :
    (ms.map fun m => (m.path, m.referentUnder g)).foldl noteFree free =
      (ms.map fun m => (m.path, m.referentUnder f)).foldl noteFree free := by
  induction ms generalizing free with
  | nil => rfl
  | cons m rest ih =>
      rw [List.map_cons, List.map_cons, List.foldl_cons, List.foldl_cons, h m List.mem_cons_self]
      exact ih (fun m' hm' => h m' (List.mem_cons_of_mem _ hm')) _

/-- A program analysed before and after it is resolved, by its labelled form: the names
before and after are renamings `f` and `g` of the labels. -/
structure Twice (t : Tree) (dry dry' : Walk) (labels : List String) (body : List Event)
    (f g : String → String) : Prop where
  /-- The labelled program. -/
  regular : Regular t.labelled labels body
  /-- What mentions mean before. -/
  before : dry.referents = (contexts [([], labels)] body).map fun m =>
    (m.path, m.referentUnder f)
  /-- What mentions mean after. -/
  after : dry'.referents = (contexts [([], labels)] body).map fun m =>
    (m.path, m.referentUnder g)
  /-- The new names tell what mentions meant. -/
  separate : ∀ m ∈ contexts [([], labels)] body, ∀ m' ∈ contexts [([], labels)] body,
    g m.name = g m'.name ↔ m.referentUnder f = m'.referentUnder f
  /-- Free mentions keep their names. -/
  kept : ∀ m ∈ contexts [([], labels)] body, ∀ n, m.referentUnder f = .free n → g m.name = n
  /-- A mention is told by its path. -/
  unique : ∀ m ∈ contexts [([], labels)] body, ∀ m' ∈ contexts [([], labels)] body,
    m.path = m'.path → m = m'

theorem Runs.twice {res' : Resolution} {dry' real' : Walk} (h : t.isProgram = true)
    (hruns : Runs t res dry real) (hruns' : Runs res.tree res' dry' real') :
    ∃ labels body, Twice t dry dry' labels body (t.spelledAs fun _ name => name)
      (t.spelledAs real.spelling) := by
  have hformed := isFormed_of_isProgram h
  obtain ⟨labels, body, hregular⟩ := regular_events (t := t.labelled) (isProgram_respell h)
  have hself : t.respell (fun _ name => name) = t := respell_eq_self hformed fun _ _ => rfl
  have hbefore := (hself.symm ▸ hruns).referents_labelled h hregular
  have hafter := (hruns.tree_eq_respell hformed ▸ hruns').referents_labelled h hregular
  have hfound : ∀ m ∈ contexts [([], labels)] body,
      (m.path, m.referentUnder (t.spelledAs fun _ name => name)) ∈ dry.referents :=
    fun m hm => by rw [hbefore]; exact List.mem_map.2 ⟨m, hm, rfl⟩
  have hocc := fun m hm => @occurrence_respelled t res dry real labels body h hruns hregular m hm
  refine ⟨labels, body, hregular, hbefore, hafter, ?_, ?_, ?_⟩
  · intro m hm m' hm'
    exact hruns.same_name_iff hformed (hocc m hm) (hocc m' hm') (hfound m hm) (hfound m' hm')
  · intro m hm n hn
    rcases hruns.spelled hformed (hocc m hm) (hfound m hm) with ⟨s, n', hbound, -⟩ | ⟨hfree, -⟩
    · rw [hbound] at hn
      cases hn
    · exact Referent.free.inj (hfree.symm.trans hn)
  · intro m hm m' hm' hpath
    refine List.inj_on_of_nodup_map ?_ hm hm' hpath
    have hpaths : (contexts [([], labels)] body).map Mention.path =
        t.labelled.occurrences.map Prod.fst := by
      rw [← hregular.mentions_eq, ← contexts_mentions [([], labels)], List.map_map]
      rfl
    rw [hpaths]
    exact occurrences_paths_nodup (isFormed_of_isProgram (isProgram_respell h))

namespace Twice

variable {dry' : Walk} {f g : String → String}

theorem mem_before (h : Twice t dry dry' labels body f g) {p : Path} {r : Referent} :
    (p, r) ∈ dry.referents ↔
      ∃ m ∈ contexts [([], labels)] body, m.path = p ∧ m.referentUnder f = r := by
  rw [h.before, List.mem_map]
  simp only [Prod.mk.injEq]

theorem mem_after (h : Twice t dry dry' labels body f g) {p : Path} {r : Referent} :
    (p, r) ∈ dry'.referents ↔
      ∃ m ∈ contexts [([], labels)] body, m.path = p ∧ m.referentUnder g = r := by
  rw [h.after, List.mem_map]
  simp only [Prod.mk.injEq]

/-- Two mentions of the labelled program with the same label are the same. -/
theorem eq_of_name (h : Twice t dry dry' labels body f g) (hprogram : t.isProgram = true)
    {m m' : Mention} (hm : m ∈ contexts [([], labels)] body)
    (hm' : m' ∈ contexts [([], labels)] body) (hname : m.name = m'.name) : m = m' := by
  obtain ⟨name, hocc, hlabel⟩ := occurrence_of_context hprogram h.regular hm
  obtain ⟨-, -, hlabel'⟩ := occurrence_of_context hprogram h.regular hm'
  rw [hlabel, hlabel'] at hname
  exact h.unique m hm m' hm' (label_inj (List.mem_map_of_mem hocc) hname)

/-- A label that is declared for a scope is mentioned inside it. -/
theorem declarer (h : Twice t dry dry' labels body f g) {l : String} {s : Path}
    (hl : l ∈ declaredIn s (events t.labelled)) :
    ∃ d ∈ contexts [([], labels)] body, d.name = l ∧
      ∃ inner declared outer, d.stack = inner ++ (s, declared) :: outer ∧ l ∈ declared := by
  rw [h.regular.events_eq, declaredIn_cons, List.mem_append] at hl
  rcases hl with hl | hl
  · rw [Event.declaredFor] at hl
    split at hl
    · rename_i hroot
      subst hroot
      obtain ⟨d, hd, hname⟩ :=
        mem_contexts_of_mem_mentionNames [([], labels)] (h.regular.names_mentioned l hl)
      obtain ⟨inner, hinner⟩ := h.regular.nested.stack_suffix hd
      exact ⟨d, hd, hname, inner, labels, [], hinner, hl⟩
    · exact absurd hl List.not_mem_nil
  · obtain ⟨e, he, hle⟩ := List.mem_flatMap.1 hl
    cases e with
    | enter site names =>
        rw [Event.declaredFor] at hle
        split at hle
        · rename_i hsite
          subst hsite
          obtain ⟨d, hd, hname, inner, outer, hstack⟩ :=
            h.regular.nested.declared_mentioned [([], labels)] he hle
          exact ⟨d, hd, hname, inner, names, outer, hstack, hle⟩
        · exact absurd hle List.not_mem_nil
    | declare _ => exact absurd (h.regular.nested.isPlain _ he) (by simp [Event.isPlain])
    | leave | mention _ _ | broken _ => exact absurd hle List.not_mem_nil

theorem declared_of_stack (h : Twice t dry dry' labels body f g) {m : Mention}
    (hm : m ∈ contexts [([], labels)] body) {s : Path} {declared : List String}
    (hscope : (s, declared) ∈ m.stack) {l : String} (hl : l ∈ declared) :
    l ∈ declaredIn s (events t.labelled) := by
  rw [h.regular.events_eq]
  exact (mem_declaredIn h.regular.nested h.regular.scopes_nodup hm hscope).2 hl

theorem free_stays (h : Twice t dry dry' labels body f g) {m : Mention}
    (hm : m ∈ contexts [([], labels)] body) {n : String} (hfree : m.referentUnder f = .free n) :
    m.referentUnder g = .free n := by
  rw [free_again h.regular.nested h.regular.names_mentioned h.separate hm hfree,
    h.kept m hm n hfree]

/-- A mention keeps its scope exactly if the scope has a declaration of the same binding
that is found in it. -/
theorem bound_stays_iff (h : Twice t dry dry' labels body f g) (hprogram : t.isProgram = true)
    {p s : Path} {n : String} (hp : (p, .bound s n) ∈ dry.referents) :
    (∃ n', (p, .bound s n') ∈ dry'.referents) ↔
      ∃ d, Declares t s d ∧ (d, .bound s n) ∈ dry.referents := by
  obtain ⟨m, hm, rfl, hbound⟩ := h.mem_before.1 hp
  have hiff := bound_again_iff h.regular.nested h.regular.names_mentioned h.regular.scopes_nodup
    h.separate hm hbound
  rw [← h.regular.events_eq] at hiff
  constructor
  · rintro ⟨n', hn'⟩
    obtain ⟨m', hm', hpath, href⟩ := h.mem_after.1 hn'
    obtain rfl := h.unique m' hm' m hm hpath
    obtain ⟨d, hd, hdeclared, hdbound⟩ := hiff.1 ⟨n', href⟩
    obtain ⟨-, -, hlabel⟩ := occurrence_of_context hprogram h.regular hd
    rw [hlabel] at hdeclared
    exact ⟨d.path, hdeclared, h.mem_before.2 ⟨d, hd, rfl, hdbound⟩⟩
  · rintro ⟨d, hdeclares, hd⟩
    obtain ⟨m', hm', rfl, href⟩ := h.mem_before.1 hd
    obtain ⟨-, -, hlabel⟩ := occurrence_of_context hprogram h.regular hm'
    obtain ⟨n', hn'⟩ := hiff.2 ⟨m', hm', by rw [hlabel]; exact hdeclares, href⟩
    exact ⟨n', h.mem_after.2 ⟨m, hm, rfl, hn'⟩⟩

/-- If all mentions keep their scopes, the same names are free. -/
theorem free_eq (h : Twice t dry dry' labels body f g)
    (hkept : ∀ p s n, (p, .bound s n) ∈ dry.referents → ∃ n', (p, .bound s n') ∈ dry'.referents) :
    dry'.referents.foldl noteFree [] = dry.referents.foldl noteFree [] := by
  rw [h.before, h.after]
  refine foldl_noteFree_congr (fun m hm free => ?_) []
  cases href : m.referentUnder f with
  | free n => rw [h.free_stays hm href]
  | bound s n =>
      obtain ⟨n', hn'⟩ := hkept m.path s n (h.mem_before.2 ⟨m, hm, rfl, href⟩)
      obtain ⟨m', hm', hpath, href'⟩ := h.mem_after.1 hn'
      obtain rfl := h.unique m' hm' m hm hpath
      rw [href']
      rfl

end Twice

/-- Are the same names free in the resolved tree, and does every mention of a binding keep
the scope it was found in? -/
def KeepsBindings (t t' : Tree) (dry dry' : Walk) : Prop :=
  freeNames t' = freeNames t ∧
    ∀ p s n, (p, .bound s n) ∈ dry.referents → ∃ n', (p, .bound s n') ∈ dry'.referents

/-- Is every binding that is mentioned declared by an occurrence that is itself found in the
scope of the binding? -/
def DeclaredInside (t : Tree) (dry : Walk) : Prop :=
  ∀ p s n, (p, .bound s n) ∈ dry.referents →
    ∃ d, Declares t s d ∧ (d, .bound s n) ∈ dry.referents

theorem Runs.keeps_bindings_iff {res' : Resolution} {dry' real' : Walk} (h : t.isProgram = true)
    (hruns : Runs t res dry real) (hruns' : Runs res.tree res' dry' real') :
    KeepsBindings t res.tree dry dry' ↔ DeclaredInside t dry := by
  obtain ⟨labels, body, htwice⟩ := hruns.twice h hruns'
  constructor
  · rintro ⟨-, hkept⟩ p s n hp
    exact (htwice.bound_stays_iff h hp).1 (hkept p s n hp)
  · intro hdeclared
    have hkept := fun p s n hp => (htwice.bound_stays_iff h hp).2 (hdeclared p s n hp)
    refine ⟨?_, hkept⟩
    rw [hruns.free_names, hruns'.free_names, hruns.globals_eq, hruns'.globals_eq,
      hruns.notes_free.free, hruns'.notes_free.free, htwice.free_eq hkept]

theorem Runs.free_stays {res' : Resolution} {dry' real' : Walk} (h : t.isProgram = true)
    (hruns : Runs t res dry real) (hruns' : Runs res.tree res' dry' real') {p : Path} {n : String}
    (hp : (p, .free n) ∈ dry.referents) : (p, .free n) ∈ dry'.referents := by
  obtain ⟨labels, body, htwice⟩ := hruns.twice h hruns'
  obtain ⟨m, hm, rfl, href⟩ := htwice.mem_before.1 hp
  exact htwice.mem_after.2 ⟨m, hm, rfl, htwice.free_stays hm href⟩

end Analyses

/-- A program, its resolution, and the dry runs that find what the occurrences mean before
and after. -/
structure Reanalysed (t : Tree) (res : Resolution) (dry dry' : Walk) : Prop where
  /-- Resolving the program succeeds. -/
  resolved : resolve t = .ok res
  /-- The dry run goes through the program. -/
  before : walkThrough t [] true = .ok dry
  /-- The other goes through the resolved program. -/
  after : walkThrough res.tree [] true = .ok dry'
  /-- A free occurrence stays free under its name. -/
  free_stays : ∀ p n, (p, .free n) ∈ dry.referents → (p, .free n) ∈ dry'.referents
  /-- The bindings are kept exactly if all that are mentioned are declared inside. -/
  keeps_bindings_iff : KeepsBindings t res.tree dry dry' ↔ DeclaredInside t dry

/-- **A resolved program has the binding structure it had** exactly if every binding that is
mentioned is declared by an occurrence that is itself found in the binding's scope. -/
theorem resolve_keeps_bindings_iff {goal : Grammar.Goal} {source : String} {t : Tree}
    (h : Grammar.parse goal source = .ok t) : ∃ res dry dry', Reanalysed t res dry dry' := by
  have hprogram := Grammar.isProgram_of_parse h
  have hformed := isFormed_of_isProgram hprogram
  obtain ⟨res, dry, real, hruns⟩ := runs_program hprogram
  have hprogram' : res.tree.isProgram = true := by
    rw [hruns.tree_eq_respell hformed]
    exact isProgram_respell hprogram
  obtain ⟨res', dry', real', hruns'⟩ := runs_program hprogram'
  exact ⟨res, dry, dry',
    { resolved := hruns.resolved
      before := hruns.dry_walk
      after := hruns'.dry_walk
      free_stays := fun p n hp => hruns.free_stays hprogram hruns' hp
      keeps_bindings_iff := hruns.keeps_bindings_iff hprogram hruns' }⟩

set_option maxRecDepth 100000 in
/-- A parameter shadows a variable. -/
theorem resolve_keeps_bindings_parameter :
    ∃ t, Grammar.parse .script "var a; function f(a) { return a }" = .ok t ∧
      ∃ res dry dry', Reanalysed t res dry dry' := by
  have hok : (Grammar.parse .script "var a; function f(a) { return a }").toOption.isSome = true := by
    decide +kernel
  cases hparse : Grammar.parse .script "var a; function f(a) { return a }" with
  | error e => rw [hparse] at hok; cases hok
  | ok t => exact ⟨t, rfl, resolve_keeps_bindings_iff hparse⟩

set_option maxRecDepth 100000 in
/-- A hoisted variable whose only declaration stands where an exception of the same name is
caught: no name is free at first, and the variable is once the program is resolved. -/
theorem resolve_frees_hoisted :
    ∃ t res, Grammar.parse .script "function f() { try {} catch (e) { var e; } return e }" = .ok t ∧
      resolve t = .ok res ∧ freeNames t = .ok [] ∧ freeNames res.tree = .ok ["e"] := by
  have hrun : ((Grammar.parse .script
      "function f() { try {} catch (e) { var e; } return e }").toOption.bind fun t =>
        (resolve t).toOption.map fun res =>
          ((freeNames t).toOption, (freeNames res.tree).toOption)) = some (some [], some ["e"]) := by
    decide +kernel
  obtain ⟨t, hparse, hrest⟩ := Option.bind_eq_some_iff.1 hrun
  obtain ⟨res, hres, hfree⟩ := Option.map_eq_some_iff.1 hrest
  obtain ⟨hbefore, hafter⟩ := Prod.mk.inj hfree
  exact ⟨t, res, ok_of_toOption hparse, ok_of_toOption hres, ok_of_toOption hbefore,
    ok_of_toOption hafter⟩

end NameRecovery.Scope
