import NameRecovery.Proofs.Scope.Announced
import NameRecovery.Proofs.Scope.Reanalysis

/-!
# Declared names and free names of a resolved program

A tree has two notions of a declared name.  The passes that infer names take every name
that a node of a declaring kind has, wherever the node stands.  The resolver takes the
names that some scope declares.  An occurrence of the first kind need not be one of the
second: the name of a class expression is one, and that of a function declared as the
branch of an `if`.  If nothing else declares the binding it means, its name is free in the
resolved program, and declared all the same.

* `openings` — the scopes entered, with those open around them;
* `Twice.free_iff_stray` — a mention becomes free exactly if no declaration means the same;
* `resolve_declared_free_iff` — the names that are both declared and free;
* `resolve_declares_free` — a program with one.
-/

namespace NameRecovery.Scope

open NameRecovery.Tree

/-! ## Scopes and what is around them -/

/-- The scopes that are entered: the node, the names it declares and the scopes open
around it. -/
def openings (stack : Stack) : List Event → List (Path × List String × Stack)
  | [] => []
  | .enter scope names :: rest =>
    (scope, names, stack) :: openings ((scope, names) :: stack) rest
  | .leave :: rest => openings stack.tail rest
  | .mention _ _ :: rest | .declare _ :: rest | .broken _ :: rest => openings stack rest

theorem openings_sites (stack : Stack) (events : List Event) :
    (openings stack events).map Prod.fst = enteredScopes events := by
  induction events generalizing stack with
  | nil => rfl
  | cons event rest ih =>
      cases event with
      | enter scope names => exact congrArg (scope :: ·) (ih _)
      | leave => exact ih _
      | mention _ _ | declare _ | broken _ => exact ih stack

/-- A scope around a mention was open before, or is opened on the way. -/
theorem opening_of_context {stack : Stack} {events : List Event} {m : Mention}
    (hm : m ∈ contexts stack events) {inner outer : Stack} {s : Path} {names : List String}
    (hstack : m.stack = inner ++ (s, names) :: outer) :
    (s, names) :: outer <:+ stack ∨ (s, names, outer) ∈ openings stack events := by
  induction events generalizing stack with
  | nil => exact absurd hm List.not_mem_nil
  | cons event rest ih =>
      cases event with
      | mention path name =>
          rcases List.mem_cons.1 hm with rfl | hm
          · exact .inl ⟨inner, hstack.symm⟩
          · exact ih hm
      | declare _ | broken _ => exact ih hm
      | leave => exact (ih hm).imp_left fun h => h.trans (List.tail_suffix stack)
      | enter scope declared =>
          rcases ih hm with hsuffix | hmem
          · rcases List.suffix_cons_iff.1 hsuffix with heq | hsuffix
            · obtain ⟨hscope, rfl⟩ := List.cons.inj heq
              obtain ⟨rfl, rfl⟩ := Prod.mk.inj hscope
              exact .inr List.mem_cons_self
            · exact .inl hsuffix
          · exact .inr (List.mem_cons_of_mem _ hmem)

/-- The scopes around a scope are the same wherever it is seen from. -/
theorem outer_unique {labels : List String} {body : List Event}
    (hscopes : ([] :: enteredScopes body).Nodup) {m m' : Mention}
    (hm : m ∈ contexts [([], labels)] body) (hm' : m' ∈ contexts [([], labels)] body)
    {inner inner' outer outer' : Stack} {s : Path} {names names' : List String}
    (hstack : m.stack = inner ++ (s, names) :: outer)
    (hstack' : m'.stack = inner' ++ (s, names') :: outer') : names = names' ∧ outer = outer' := by
  obtain ⟨hroot, hnodup⟩ := List.nodup_cons.1 hscopes
  rw [← openings_sites [([], labels)]] at hroot hnodup
  have hsite : ∀ {names outer}, (s, names) :: outer <:+ [([], labels)] →
      s = [] ∧ names = labels ∧ outer = [] := by
    intro names outer hsuffix
    rcases List.suffix_cons_iff.1 hsuffix with heq | hsuffix
    · obtain ⟨hscope, rfl⟩ := List.cons.inj heq
      exact ⟨(Prod.mk.inj hscope).1, (Prod.mk.inj hscope).2, rfl⟩
    · exact absurd (List.suffix_nil.1 hsuffix) (List.cons_ne_nil _ _)
  rcases opening_of_context hm hstack with hfirst | hfirst <;>
    rcases opening_of_context hm' hstack' with hsecond | hsecond
  · obtain ⟨-, rfl, rfl⟩ := hsite hfirst
    obtain ⟨-, rfl, rfl⟩ := hsite hsecond
    exact ⟨rfl, rfl⟩
  · obtain ⟨rfl, -, -⟩ := hsite hfirst
    exact absurd (List.mem_map.2 ⟨_, hsecond, rfl⟩) hroot
  · obtain ⟨rfl, -, -⟩ := hsite hsecond
    exact absurd (List.mem_map.2 ⟨_, hfirst, rfl⟩) hroot
  · have heq := List.inj_on_of_nodup_map hnodup hfirst hsecond rfl
    exact Prod.mk.inj (Prod.mk.inj heq).2

/-! ## Mentions that become free -/

namespace Twice

variable {t : Tree} {dry dry' : Walk} {labels : List String} {body : List Event}
  {f g : String → String}

/-- Mentions that mean the same become free together: one of them sees every scope that
could declare the other's new name. -/
theorem free_of_same (h : Twice t dry dry' labels body f g) {m m' : Mention}
    (hm : m ∈ contexts [([], labels)] body) (hm' : m' ∈ contexts [([], labels)] body)
    (hsame : m.referentUnder f = m'.referentUnder f)
    (hfree : ∀ scope ∈ m.stack, g m.name ∉ scope.2.map g) :
    ∀ scope ∈ m'.stack, g m'.name ∉ scope.2.map g := by
  intro scope hscope hmem
  obtain ⟨d, hd, hname, href⟩ :=
    (mem_declared_iff h.regular.nested h.regular.names_mentioned h.separate hm' hscope).1 hmem
  have hf : f m'.name ∈ scope.2.map f := by
    rw [← referentUnder_name f m', ← href, referentUnder_name]
    exact List.mem_map_of_mem hname
  cases href' : m'.referentUnder f with
  | free n => exact (referentUnder_eq_free.1 href').2 scope hscope hf
  | bound s n =>
      obtain ⟨-, inner', declared', outer', hstack', -, hinner'⟩ := referentUnder_eq_bound.1 href'
      obtain ⟨-, inner, declared, outer, hstack, -⟩ :=
        referentUnder_eq_bound.1 (hsame.trans href')
      obtain ⟨rfl, rfl⟩ := outer_unique h.regular.scopes_nodup hm hm' hstack hstack'
      have hin : scope ∈ (s, declared) :: outer := by
        rw [hstack'] at hscope
        exact (List.mem_append.1 hscope).resolve_left fun hin => hinner' scope hin hf
      refine hfree scope (by rw [hstack]; exact List.mem_append_right _ hin) ?_
      rw [← (h.separate d hd m hm).2 (href.trans hsame.symm)]
      exact List.mem_map_of_mem hname

end Twice

/-- Does no declaration mean what the occurrence at the path means? -/
def Stray (t : Tree) (dry : Walk) (p : Path) : Prop :=
  ∀ d s r, Declares t s d → (d, r) ∈ dry.referents → (p, r) ∉ dry.referents

/-- Does the occurrence at `site` stand where a node of a declaring kind has a name? -/
def Announces (t : Tree) (site : Path) : Prop :=
  ∃ labels, t.labelled.declaredNames = .ok labels ∧ t.label site ∈ labels

namespace Twice

variable {t : Tree} {dry dry' : Walk} {labels : List String} {body : List Event}
  {f g : String → String}

/-- **A mention becomes free** exactly if no declaration means what it means. -/
theorem free_iff_stray (h : Twice t dry dry' labels body f g) (hprogram : t.isProgram = true)
    {m : Mention} (hm : m ∈ contexts [([], labels)] body) :
    m.referentUnder g = .free (g m.name) ↔ Stray t dry m.path := by
  rw [referentUnder_eq_free, eq_self, true_and]
  constructor
  · intro hfree p s r hdeclares hp hr
    obtain ⟨d, hd, rfl, hdref⟩ := h.mem_before.1 hp
    obtain ⟨m', hm', hpath, href⟩ := h.mem_before.1 hr
    obtain rfl := h.unique m' hm' m hm hpath
    obtain ⟨-, -, hlabel⟩ := occurrence_of_context hprogram h.regular hd
    rw [Declares, ← hlabel] at hdeclares
    obtain ⟨d', hd', hname, inner, declared, outer, hstack, hmem⟩ := h.declarer hdeclares
    obtain rfl := h.eq_of_name hprogram hd' hd hname
    refine h.free_of_same hm' hd' (href.trans hdref.symm) hfree (s, declared) ?_ ?_
    · rw [hstack]
      simp
    · exact List.mem_map_of_mem hmem
  · intro hstray scope hscope hmem
    obtain ⟨d, hd, hname, href⟩ :=
      (mem_declared_iff h.regular.nested h.regular.names_mentioned h.separate hm hscope).1 hmem
    have hdeclared := h.declared_of_stack hm hscope hname
    obtain ⟨-, -, hlabel⟩ := occurrence_of_context hprogram h.regular hd
    rw [hlabel] at hdeclared
    exact hstray d.path scope.1 _ hdeclared (h.mem_before.2 ⟨d, hd, rfl, rfl⟩)
      (h.mem_before.2 ⟨m, hm, rfl, href.symm⟩)

end Twice

/-! ## Free names of the resolved program -/

theorem mem_foldl_noteFree_iff {referents : List (Path × Referent)} {n : String} :
    n ∈ referents.foldl noteFree [] ↔ ∃ p, (p, .free n) ∈ referents := by
  refine ⟨fun h => (mem_foldl_noteFree h).resolve_left List.not_mem_nil, ?_⟩
  rintro ⟨p, hp⟩
  obtain ⟨before, after, rfl⟩ := List.append_of_mem hp
  have hkeep : ∀ (rest : List (Path × Referent)) (free : List String), n ∈ free →
      n ∈ rest.foldl noteFree free := by
    intro rest
    induction rest with
    | nil => exact fun free hn => hn
    | cons m rest ih =>
        intro free hn
        refine ih _ ?_
        obtain ⟨path, referent⟩ := m
        cases referent with
        | bound s n' => exact hn
        | free n' =>
            rw [noteFree]
            split
            · exact hn
            · exact List.mem_cons_of_mem _ hn
  rw [List.foldl_append, List.foldl_cons]
  refine hkeep after _ ?_
  rw [noteFree]
  split
  · rename_i hmem
    exact List.contains_iff_mem.1 hmem
  · exact List.mem_cons_self

section Runs

variable {t : Tree} {res res' : Resolution} {dry real dry' real' : Walk}

theorem Runs.mem_globals_iff (h : Runs t res dry real) {n : String} :
    n ∈ res.globals ↔ ∃ p, (p, .free n) ∈ dry.referents := by
  rw [h.globals_eq, mem_sorted, h.notes_free.free, mem_foldl_noteFree_iff]

/-- The declared names of the resolved program are the new names of the occurrences that are
announced. -/
theorem Runs.mem_declared_iff (h : Runs t res dry real) (hprogram : t.isProgram = true)
    {declared : List String} (hdeclared : res.tree.declaredNames = .ok declared) {n : String} :
    n ∈ declared ↔ ∃ p, Announces t p ∧ (p, n) ∈ res.tree.occurrences := by
  have hformed := isFormed_of_isProgram hprogram
  have hlabelled : t.labelled.isProgram = true := isProgram_respell hprogram
  obtain ⟨fields, heq, -⟩ := exists_fields_of_isProgram hlabelled
  have hnode : t.labelled.isNode = true := by rw [heq]; rfl
  have hnatural := declaredNames_natural (isFormed_of_isProgram hlabelled) hnode
  obtain ⟨found, hfound, hrename⟩ := hnatural.read_eq
  have htree : res.tree = renameAt (t.spelledAs real.spelling) true t.labelled :=
    (h.tree_eq_respell hformed).trans (rename_labelled hformed real.spelling).symm
  have hnames : declared = found.map (t.spelledAs real.spelling) := by
    rw [htree, hrename] at hdeclared
    exact (Except.ok.inj hdeclared).symm
  have hoccurrences : res.tree.occurrences =
      t.occurrences.map fun o => (o.1, real.spelling o.1 o.2) := by
    rw [h.tree_eq_respell hformed, occurrences_respell hformed]
    rfl
  rw [hnames, hoccurrences]
  constructor
  · intro hn
    obtain ⟨l, hl, rfl⟩ := List.mem_map.1 hn
    have hocc := hnatural.mem_occurrences (isFormed_of_isProgram hlabelled) hfound
      ⟨none, none, []⟩ rfl hl
    change l ∈ t.labelled.occurrences.map Prod.snd at hocc
    rw [occurrences_labelled hformed, List.map_map] at hocc
    obtain ⟨o, ho, rfl⟩ := List.mem_map.1 hocc
    refine ⟨o.1, ⟨found, hfound, hl⟩, List.mem_map.2 ⟨o, ho, ?_⟩⟩
    rw [Function.comp, spelledAs_label hformed _ ho]
  · rintro ⟨p, ⟨found', hfound', hl⟩, hocc⟩
    obtain rfl := Except.ok.inj (hfound'.symm.trans hfound)
    obtain ⟨o, ho, heq⟩ := List.mem_map.1 hocc
    obtain ⟨rfl, rfl⟩ := Prod.mk.inj heq
    rw [← spelledAs_label hformed real.spelling ho]
    exact List.mem_map_of_mem hl

theorem Runs.declared_and_free_iff (hprogram : t.isProgram = true) (h : Runs t res dry real)
    (h' : Runs res.tree res' dry' real') {declared : List String}
    (hdeclared : res.tree.declaredNames = .ok declared) {n : String} :
    n ∈ declared ∧ n ∈ res'.globals ↔
      ∃ p, Announces t p ∧ Stray t dry p ∧ (p, n) ∈ res.tree.occurrences := by
  obtain ⟨labels, body, htwice⟩ := h.twice hprogram h'
  have hcontext : ∀ {p}, (p, n) ∈ res.tree.occurrences →
      ∃ d ∈ contexts [([], labels)] body, d.path = p ∧ t.spelledAs real.spelling d.name = n := by
    intro p hp
    rw [← h'.referents_occurrences] at hp
    obtain ⟨m, hm, heq⟩ := List.mem_map.1 hp
    obtain ⟨rfl, rfl⟩ := Prod.mk.inj heq
    obtain ⟨d, hd, hpath, href⟩ := htwice.mem_after.1 hm
    exact ⟨d, hd, hpath, by rw [← href, referentUnder_name]⟩
  rw [h.mem_declared_iff hprogram hdeclared, h'.mem_globals_iff]
  constructor
  · rintro ⟨⟨p, hannounces, hocc⟩, q, hq⟩
    obtain ⟨d, hd, rfl, hname⟩ := hcontext hocc
    obtain ⟨m, hm, -, href⟩ := htwice.mem_after.1 hq
    obtain ⟨hname', hfree⟩ := referentUnder_eq_free.1 href
    have hsame := (htwice.separate m hm d hd).1 (hname'.symm.trans hname.symm)
    refine ⟨d.path, hannounces, (htwice.free_iff_stray hprogram hd).1 ?_, hocc⟩
    exact referentUnder_eq_free.2 ⟨rfl, htwice.free_of_same hm hd hsame hfree⟩
  · rintro ⟨p, hannounces, hstray, hocc⟩
    obtain ⟨d, hd, rfl, rfl⟩ := hcontext hocc
    refine ⟨⟨d.path, hannounces, hocc⟩, d.path, htwice.mem_after.2 ⟨d, hd, rfl, ?_⟩⟩
    exact (htwice.free_iff_stray hprogram hd).2 hstray

end Runs

/-! ## Tables with declared names only -/

/-- A name keeps its occurrences under all renamings of declared names exactly if it is not
declared itself. -/
theorem kept_iff_not_declared {t : Tree} (hprogram : t.isProgram = true) {declared : List String}
    {n : String} (hmentioned : ∃ p, (p, n) ∈ t.occurrences) :
    (∀ table : Table String, (∀ k ∈ table.keys, k ∈ declared) → ∃ t' count,
      t.rename table = (t', .ok count) ∧ ∀ p, (p, n) ∈ t.occurrences → (p, n) ∈ t'.occurrences) ↔
    n ∉ declared := by
  have hformed := isFormed_of_isProgram hprogram
  obtain ⟨fields, rfl, -⟩ := exists_fields_of_isProgram hprogram
  constructor
  · intro hkept hdeclared
    obtain ⟨p, hp⟩ := hmentioned
    obtain ⟨t', count, hrename, hoccurs⟩ :=
      hkept [(n, n ++ "_")] (by simpa [Table.keys] using hdeclared)
    obtain ⟨count', hrename'⟩ := rename_formed hformed rfl [(n, n ++ "_")]
    obtain rfl := (Prod.mk.inj (hrename.symm.trans hrename')).1
    have hold := hoccurs p hp
    rw [renamed, occurrences_respell hformed] at hold
    obtain ⟨o, ho, heq⟩ := List.mem_map.1 hold
    obtain ⟨hpath, hname⟩ := Prod.mk.inj heq
    have hsame := List.inj_on_of_nodup_map (occurrences_paths_nodup hformed) ho hp hpath
    rw [hsame, Table.spell_single] at hname
    exact append_underscore_ne n hname
  · intro hnot table hkeys
    obtain ⟨count, hrename⟩ := rename_formed hformed rfl table
    refine ⟨_, count, hrename, fun p hp => ?_⟩
    rw [renamed, occurrences_respell hformed]
    refine List.mem_map.2 ⟨_, hp, ?_⟩
    rw [Table.spell_of_not_mem fun hmem => hnot (hkeys n hmem)]

/-! ## Both notions together -/

/-- A program and its resolution, with the names declared and the names free in the
latter. -/
structure Declarations (t : Tree) (res : Resolution) (dry : Walk)
    (declared free : List String) : Prop where
  /-- Resolving the program succeeds. -/
  resolved : resolve t = .ok res
  /-- The dry run goes through the program. -/
  before : walkThrough t [] true = .ok dry
  /-- The names that the resolved program declares anywhere. -/
  declared_eq : res.tree.declaredNames = .ok declared
  /-- The names it mentions without declaring them in scope. -/
  free_eq : freeNames res.tree = .ok free
  /-- A name is both exactly if it is the new name of an occurrence that is announced while
  no declaration means the same. -/
  both_iff : ∀ n, n ∈ declared ∧ n ∈ free ↔
    ∃ p, Announces t p ∧ Stray t dry p ∧ (p, n) ∈ res.tree.occurrences
  /-- A free name keeps all its occurrences, whatever declared names are renamed, exactly if it
  is not declared. -/
  kept_iff : ∀ n ∈ free, (∀ table : Table String, (∀ k ∈ table.keys, k ∈ declared) → ∃ t' count,
    res.tree.rename table = (t', .ok count) ∧
      ∀ p, (p, n) ∈ res.tree.occurrences → (p, n) ∈ t'.occurrences) ↔ n ∉ declared

/-- **The names that a resolved program declares are none of its free names**, but for those
of announced occurrences that mean nothing declared. -/
theorem resolve_declared_free_iff {goal : Grammar.Goal} {source : String} {t : Tree}
    (h : Grammar.parse goal source = .ok t) :
    ∃ res dry declared free, Declarations t res dry declared free := by
  have hprogram := Grammar.isProgram_of_parse h
  obtain ⟨res, dry, real, hruns⟩ := runs_program hprogram
  have hprogram' : res.tree.isProgram = true := by
    rw [hruns.tree_eq_respell (isFormed_of_isProgram hprogram)]
    exact isProgram_respell hprogram
  obtain ⟨res', dry', real', hruns'⟩ := runs_program hprogram'
  obtain ⟨fields, heq, hformed⟩ := exists_fields_of_isProgram hprogram'
  obtain ⟨declared, hdeclared⟩ : ∃ declared, res.tree.declaredNames = .ok declared := by
    rw [heq]
    exact declaredNames_formed hformed rfl
  refine ⟨res, dry, declared, res'.globals,
    { resolved := hruns.resolved
      before := hruns.dry_walk
      declared_eq := hdeclared
      free_eq := hruns'.free_names
      both_iff := fun n => hruns.declared_and_free_iff hprogram hruns' hdeclared
      kept_iff := fun n hn => kept_iff_not_declared hprogram' ?_ }⟩
  obtain ⟨p, hp⟩ := hruns'.mem_globals_iff.1 hn
  rw [← hruns'.referents_occurrences]
  exact ⟨p, List.mem_map.2 ⟨_, hp, rfl⟩⟩

set_option maxRecDepth 100000 in
/-- A parameter shadows a global. -/
theorem resolve_declared_free_parameter :
    ∃ t, Grammar.parse .script "function f($) { return $ } $(f)" = .ok t ∧
      ∃ res dry declared free, Declarations t res dry declared free := by
  have hok : (Grammar.parse .script "function f($) { return $ } $(f)").toOption.isSome = true := by
    decide +kernel
  cases hparse : Grammar.parse .script "function f($) { return $ } $(f)" with
  | error e => rw [hparse] at hok; cases hok
  | ok t => exact ⟨t, rfl, resolve_declared_free_iff hparse⟩

set_option maxRecDepth 100000 in
/-- A function declared as the branch of an `if` is declared and free. -/
theorem resolve_declares_free :
    ∃ t res, Grammar.parse .script "if (1) function g() {}" = .ok t ∧ resolve t = .ok res ∧
      res.tree.declaredNames = .ok ["g"] ∧ freeNames res.tree = .ok ["g"] := by
  have hrun : ((Grammar.parse .script "if (1) function g() {}").toOption.bind fun t =>
      (resolve t).toOption.map fun res =>
        (res.tree.declaredNames.toOption, (freeNames res.tree).toOption)) =
      some (some ["g"], some ["g"]) := by
    decide +kernel
  obtain ⟨t, hparse, hrest⟩ := Option.bind_eq_some_iff.1 hrun
  obtain ⟨res, hres, hnames⟩ := Option.map_eq_some_iff.1 hrest
  obtain ⟨hdeclared, hfree⟩ := Prod.mk.inj hnames
  exact ⟨t, res, ok_of_toOption hparse, ok_of_toOption hres, ok_of_toOption hdeclared,
    ok_of_toOption hfree⟩

end NameRecovery.Scope
