import NameRecovery.Proofs.Scope.Fresh
import NameRecovery.Proofs.Table

/-!
# The names bindings get

A frame maps the names declared in a scope to the names their bindings get.  The
first binding of a name keeps it, every other one gets a fresh name, and the names
the program only mentions are reserved.  So no two bindings of a program get the
same name, and none gets a reserved one.

* `Resolver.declareIn_cases` — all that declaring a name can do;
* `Separate` — the invariant: over all frames filled so far, a name is given to
  one binding only, and no reserved name is given;
* `Separate.declareAll` — filling one more frame keeps it.
-/

namespace NameRecovery.Scope
namespace Resolver

/-! ## What declaring does -/

/-- Declaring a name keeps the binding it has, lets a first binding keep its name, or
gives the binding a fresh one. -/
theorem declareIn_cases (r : Resolver) (frame : Frame) (name : String) :
    (frame.has name = true ∧ r.declareIn frame name = (r, frame)) ∨
    (frame.has name = false ∧ (r.dryRun = true ∨ r.counters.has name = false) ∧
      ∃ counters : Table Nat, (∀ n, counters.has n = (decide (n = name) || r.counters.has n)) ∧
        r.declareIn frame name = ({ r with counters }, frame.put name name)) ∨
    (frame.has name = false ∧ r.dryRun = false ∧ r.counters.has name = true ∧
      ∃ count, numbered name count ∉ r.taken ∧
        r.declareIn frame name =
          ({ r with
              counters := r.counters.put name count
              taken := numbered name count :: r.taken
              renames := r.renames ++ [(name, numbered name count)] },
            frame.put name (numbered name count))) := by
  by_cases hframe : frame.has name = true
  · left
    exact ⟨hframe, by rw [declareIn, if_pos hframe]⟩
  · right
    have hf : frame.has name = false := by simpa using hframe
    cases hfound : (if r.dryRun then none else r.counters.find? name) with
    | none =>
        left
        refine ⟨hf, ?_, (if r.counters.has name then r.counters else r.counters.put name 0), ?_, ?_⟩
        · by_cases hdry : r.dryRun = true
          · exact Or.inl hdry
          · rw [if_neg hdry] at hfound
            exact Or.inr (by rw [Table.has, hfound]; rfl)
        · intro n
          by_cases hn : r.counters.has name = true
          · rw [if_pos hn]
            by_cases hnn : n = name
            · simp [hnn, hn]
            · simp [hnn]
          · rw [if_neg hn, Table.has_put]
        · rw [declareIn, if_neg hframe, hfound]
    | some last =>
        right
        have hdry : r.dryRun = false := by
          by_cases hd : r.dryRun = true
          · rw [if_pos hd] at hfound
            exact absurd hfound (by simp)
          · simpa using hd
        refine ⟨hf, hdry, ?_, freshNumber r.taken name (r.taken.length + 1) (last + 1), ?_, ?_⟩
        · rw [hdry] at hfound
          rw [Table.has, show r.counters.find? name = some last from hfound]
          rfl
        · exact numbered_freshNumber_not_mem r.taken name (last + 1) (Nat.lt_succ_self _)
        · rw [declareIn, if_neg hframe, hfound]

/-- Declaring a name changes what is known of names, and nothing else. -/
theorem declareIn_frame (r : Resolver) (frame : Frame) (name : String) :
    ∃ counters taken renames,
      (r.declareIn frame name).1 = { r with counters, taken, renames } := by
  rcases r.declareIn_cases frame name with ⟨-, h⟩ | ⟨-, -, counters, -, h⟩ | ⟨-, -, -, count, -, h⟩
  · exact ⟨r.counters, r.taken, r.renames, by rw [h]⟩
  · exact ⟨counters, r.taken, r.renames, by rw [h]⟩
  · exact ⟨_, _, _, by rw [h]⟩

theorem declareAll_frame (names : List String) : ∀ (r : Resolver) (frame : Frame),
    ∃ counters taken renames,
      (r.declareAll frame names).1 = { r with counters, taken, renames } := by
  induction names with
  | nil => intro r frame; exact ⟨r.counters, r.taken, r.renames, rfl⟩
  | cons name rest ih =>
      intro r frame
      obtain ⟨c, t, n, h⟩ := r.declareIn_frame frame name
      obtain ⟨c', t', n', h'⟩ := ih (r.declareIn frame name).1 (r.declareIn frame name).2
      exact ⟨c', t', n', by rw [declareAll, h', h]⟩

theorem has_declareIn (r : Resolver) (frame : Frame) (name n : String) :
    (r.declareIn frame name).2.has n = (decide (n = name) || frame.has n) := by
  rcases r.declareIn_cases frame name with ⟨hf, h⟩ | ⟨-, -, counters, -, h⟩ | ⟨-, -, -, count, -, h⟩
  · rw [h]
    by_cases hn : n = name
    · simp [hn, hf]
    · simp [hn]
  · rw [h, Table.has_put]
  · rw [h, Table.has_put]

/-- A frame has the names declared in it, whether the run is dry or not. -/
theorem has_declareAll (names : List String) : ∀ (r : Resolver) (frame : Frame) (n : String),
    (r.declareAll frame names).2.has n = (frame.has n || names.contains n) := by
  induction names with
  | nil => intro r frame n; simp [declareAll]
  | cons name rest ih =>
      intro r frame n
      rw [declareAll, ih, has_declareIn, List.contains_cons]
      by_cases hn : n = name
      · simp [hn]
      · simp [hn, beq_false_of_ne hn]

end Resolver

/-! ## No name is given twice -/

/-- Frames that have been filled, each with the path of the node whose scope it
belongs to. -/
abbrev Filled := List (Path × Frame)

/-- Is the binding of the name in the scope given the new name? -/
def Filled.Gives (filled : Filled) (scope : Path) (name new : String) : Prop :=
  ∃ frame, (scope, frame) ∈ filled ∧ frame.find? name = some new

/-- The frames filled so far give no name twice, and no reserved name.  `known` are the
spellings in the program. -/
structure Separate (known reserved : List String) (r : Resolver) (filled : Filled) : Prop where
  /-- Names are given in a real run only. -/
  real : r.dryRun = false
  /-- Reserved names are spelled in the program. -/
  reserved_known : ∀ n ∈ reserved, n ∈ known
  /-- No spelling of the program is given as a fresh name. -/
  known_taken : ∀ n ∈ known, n ∈ r.taken
  /-- No binding keeps a reserved name. -/
  reserved_counted : ∀ n ∈ reserved, r.counters.has n = true
  /-- A given name tells its binding. -/
  distinct : ∀ {s s' n n' m}, filled.Gives s n m → filled.Gives s' n' m → s = s' ∧ n = n'
  /-- A given name is never given again. -/
  spent : ∀ {s n m}, filled.Gives s n m →
    m ∈ r.taken ∧ m ∉ reserved ∧ (m ∈ known → r.counters.has m = true)

namespace Separate

variable {known reserved : List String} {r r' : Resolver} {filled : Filled}

theorem gives_cons_put {scope s : Path} {frame : Frame} {name new n m : String}
    (h : Filled.Gives ((scope, frame.put name new) :: filled) s n m) :
    Filled.Gives ((scope, frame) :: filled) s n m ∨ (s = scope ∧ n = name ∧ m = new) := by
  obtain ⟨f, hmem, hfind⟩ := h
  rcases List.mem_cons.1 hmem with heq | hold
  · obtain ⟨rfl, rfl⟩ := Prod.mk.injEq .. ▸ heq
    rw [Table.find?_put] at hfind
    by_cases hn : n = name
    · rw [if_pos hn] at hfind
      exact Or.inr ⟨rfl, hn, (Option.some.inj hfind).symm⟩
    · rw [if_neg hn] at hfind
      exact Or.inl ⟨frame, List.mem_cons_self .., hfind⟩
  · exact Or.inl ⟨f, List.mem_cons_of_mem _ hold, hfind⟩

/-- Give one more name, which has not been given before. -/
theorem give {scope : Path} {frame : Frame} {name new : String}
    (h : Separate known reserved r ((scope, frame) :: filled)) (hdry : r'.dryRun = false)
    (htaken : ∀ n ∈ r.taken, n ∈ r'.taken)
    (hcounters : ∀ n, r.counters.has n = true → r'.counters.has n = true)
    (hfresh : ∀ s n, ¬ Filled.Gives ((scope, frame) :: filled) s n new)
    (hnew : new ∈ r'.taken ∧ new ∉ reserved ∧ (new ∈ known → r'.counters.has new = true)) :
    Separate known reserved r' ((scope, frame.put name new) :: filled) where
  real := hdry
  reserved_known := h.reserved_known
  known_taken n hn := htaken n (h.known_taken n hn)
  reserved_counted n hn := hcounters n (h.reserved_counted n hn)
  distinct := by
    intro s s' n n' m h₁ h₂
    rcases gives_cons_put h₁ with g₁ | ⟨hs₁, hn₁, hm₁⟩ <;>
      rcases gives_cons_put h₂ with g₂ | ⟨hs₂, hn₂, hm₂⟩
    · exact h.distinct g₁ g₂
    · exact absurd (hm₂ ▸ g₁) (hfresh s n)
    · exact absurd (hm₁ ▸ g₂) (hfresh s' n')
    · exact ⟨hs₁.trans hs₂.symm, hn₁.trans hn₂.symm⟩
  spent := by
    intro s n m hg
    rcases gives_cons_put hg with hg | ⟨rfl, rfl, rfl⟩
    · obtain ⟨ht, hr, hk⟩ := h.spent hg
      exact ⟨htaken m ht, hr, fun hm => hcounters m (hk hm)⟩
    · exact hnew

/-- Declaring a name spelled in the program gives no name a second time. -/
theorem declareIn {scope : Path} {frame : Frame} {name : String}
    (h : Separate known reserved r ((scope, frame) :: filled)) (hname : name ∈ known) :
    Separate known reserved (r.declareIn frame name).1
      ((scope, (r.declareIn frame name).2) :: filled) := by
  rcases r.declareIn_cases frame name with
    ⟨-, heq⟩ | ⟨-, hfirst, counters, hcounters, heq⟩ | ⟨-, hdry, -, count, hcount, heq⟩
  · rw [heq]
    exact h
  · -- a first binding: had the name been given before, it would have been counted
    have huncounted : r.counters.has name = false := by
      rcases hfirst with hdry | huncounted
      · rw [h.real] at hdry
        exact absurd hdry (by simp)
      · exact huncounted
    rw [heq]
    refine h.give h.real (fun n hn => hn) ?_ ?_ ⟨h.known_taken name hname, ?_, ?_⟩
    · intro n hn
      rw [hcounters, hn, Bool.or_true]
    · intro s n hg
      rw [(h.spent hg).2.2 hname] at huncounted
      exact absurd huncounted (by simp)
    · intro hreserved
      rw [h.reserved_counted name hreserved] at huncounted
      exact absurd huncounted (by simp)
    · intro _
      rw [hcounters, decide_eq_true rfl, Bool.true_or]
  · -- a fresh name differs from every name taken, and all given ones are taken
    rw [heq]
    have hknown : numbered name count ∉ known := fun hk => hcount (h.known_taken _ hk)
    refine h.give hdry (fun n hn => List.mem_cons_of_mem _ hn) ?_ ?_ ⟨List.mem_cons_self .., ?_, ?_⟩
    · intro n hn
      rw [Table.has_put, hn, Bool.or_true]
    · intro s n hg
      exact hcount (h.spent hg).1
    · exact fun hreserved => hknown (h.reserved_known _ hreserved)
    · exact fun hk => absurd hk hknown

theorem declareAll_cons {scope : Path} (names : List String) : ∀ {r : Resolver} {frame : Frame},
    Separate known reserved r ((scope, frame) :: filled) → (∀ n ∈ names, n ∈ known) →
    Separate known reserved (r.declareAll frame names).1
      ((scope, (r.declareAll frame names).2) :: filled) := by
  induction names with
  | nil => intro r frame h _; exact h
  | cons name rest ih =>
      intro r frame h hnames
      rw [Resolver.declareAll]
      exact ih (h.declareIn (hnames name (List.mem_cons_self ..)))
        (fun n hn => hnames n (List.mem_cons_of_mem _ hn))

/-- Only the mode, the names taken and the counters matter. -/
theorem congr (h : Separate known reserved r filled) (hdry : r'.dryRun = r.dryRun)
    (htaken : r'.taken = r.taken) (hcounters : r'.counters = r.counters) :
    Separate known reserved r' filled where
  real := hdry ▸ h.real
  reserved_known := h.reserved_known
  known_taken := htaken ▸ h.known_taken
  reserved_counted := hcounters ▸ h.reserved_counted
  distinct := h.distinct
  spent := htaken ▸ hcounters ▸ h.spent

/-- **Filling a frame** with names spelled in the program gives no name twice. -/
theorem declareAll {names : List String} (h : Separate known reserved r filled) (scope : Path)
    (hnames : ∀ n ∈ names, n ∈ known) :
    Separate known reserved (r.declareAll [] names).1
      ((scope, (r.declareAll [] names).2) :: filled) := by
  have hempty : ∀ {s n m}, Filled.Gives ((scope, []) :: filled) s n m → filled.Gives s n m := by
    rintro s n m ⟨frame, hmem, hfind⟩
    rcases List.mem_cons.1 hmem with heq | hold
    · obtain ⟨-, rfl⟩ := Prod.mk.injEq .. ▸ heq
      exact absurd hfind (by simp [Table.find?])
    · exact ⟨frame, hold, hfind⟩
  refine declareAll_cons names ?_ hnames
  exact ⟨h.real, h.reserved_known, h.known_taken, h.reserved_counted,
    fun h₁ h₂ => h.distinct (hempty h₁) (hempty h₂), fun hg => h.spent (hempty hg)⟩

end Separate
end NameRecovery.Scope
