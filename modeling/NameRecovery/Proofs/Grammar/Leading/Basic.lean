import NameRecovery.Proofs.Grammar.Front
import NameRecovery.Proofs.Grammar.Statement
import NameRecovery.Proofs.Printer.Opening

/-!
# What the start of a text is read as

A parser that stands at the front of a text reads a tree that is printed with the same name
first: what comes before it are parentheses and minus signs, behind which stands a front of
a text again.

* `Leads` — what a parser comes to from the front of a text;
* `IsPlain` — a tree whose first name, if there is one, starts plainly;
* `plain_of_isA` — statements with a keyword, literals, brackets have none;
* `opening?_asPattern` — a pattern has the first name of the expression it stands for.
-/

namespace NameRecovery.Grammar

open Source NameRecovery.Tree

variable {α β : Type}

/-! ## Parsers at the front of a text -/

/-- Does every result the parser comes to from the front of a text satisfy `Q`? -/
def Leads (p : Parse α) (Q : α → Prop) : Prop :=
  ∀ s a s', Front s → p s = .ok (a, s') → Q a

/-- What `Leads` says of a single state. -/
def LeadsAt (s : State) (p : Parse α) (Q : α → Prop) : Prop :=
  ∀ a s', p s = .ok (a, s') → Q a

theorem Yields.leads {p : Parse α} {Q : α → Prop} (h : Yields p Q) : Leads p Q :=
  fun s a s' _ hrun => h s a s' hrun

namespace Leads

variable {p q : Parse α} {f : α → Parse β} {P P' : α → Prop} {Q : β → Prop} {s : State}

theorem here (h : Leads p P) (hs : Front s) : LeadsAt s p P :=
  fun a s' hrun => h s a s' hs hrun

theorem mono (h : Leads p P) (hP : ∀ a, P a → P' a) : Leads p P' :=
  fun s a s' hs hrun => hP a (h s a s' hs hrun)

theorem ite {c : Prop} [Decidable c] (hp : c → Leads p P) (hq : ¬ c → Leads q P) :
    Leads (if c then p else q) P := by
  split
  · exact hp ‹c›
  · exact hq ‹¬ c›

/-- A step that consumes nothing. -/
theorem skip [Stays Front p] (hf : ∀ a, Leads (f a) Q) : Leads (p >>= f) Q := by
  intro s b s' hs hrun
  obtain ⟨a, s₁, hfirst, hrest⟩ := run_bind hrun
  exact hf a s₁ b s' (Stays.makes s a s₁ hs hfirst).1 hrest

/-- The step that consumes the front; what follows may start anywhere. -/
theorem first (hp : Leads p P) (hf : ∀ a, P a → Yields (f a) Q) : Leads (p >>= f) Q := by
  intro s b s' hs hrun
  obtain ⟨a, s₁, hfirst, hrest⟩ := run_bind hrun
  exact hf a (hp s a s₁ hs hfirst) s₁ b s' hrest

/-- A step taken only on a condition. -/
theorem when {c : Prop} [Decidable c] {p : Parse Unit} {f : Unit → Parse β} [Stays Front p]
    (hf : ∀ u, Leads (f u) Q) : Leads (if c then p >>= f else f ()) Q :=
  ite (fun _ => skip hf) fun _ => hf ()

/-- A parser that goes on after what it sees. -/
theorem seeing {f : Token → Parse β} (hf : ∀ s, Front s → LeadsAt s (f s.lookahead) Q) :
    Leads (lookahead >>= f) Q := by
  intro s b s' hs hrun
  obtain ⟨token, s₁, hfirst, hrest⟩ := run_bind hrun
  cases hfirst
  exact hf s hs b s' hrest

/-- A parser that looks at the state first. -/
theorem read {read : State → α} (hp : ∀ s, p s = .ok (read s, s))
    (hf : ∀ s, Front s → LeadsAt s (f (read s)) Q) : Leads (p >>= f) Q := by
  intro s b s' hs hrun
  obtain ⟨a, s₁, hfirst, hrest⟩ := run_bind hrun
  rw [hp s] at hfirst
  cases hfirst
  exact hf s hs b s' hrest

end Leads

instance (change : Context → Context) : Stays Front (changeContext change) := by
  refine ⟨fun s a s' hs hrun => ?_⟩
  cases hrun
  exact ⟨⟨hs.solid, hs.opening⟩, trivial⟩

instance : Stays Front (modify fun s : State => { s with last := Marker.ofCursor s.cursor }) := by
  refine ⟨fun s a s' hs hrun => ?_⟩
  cases hrun
  exact ⟨⟨hs.solid, hs.opening⟩, trivial⟩

instance : Stays Front tokenAfter := by
  refine ⟨fun s token s' hs hrun => ?_⟩
  obtain ⟨start, stop, braces, -, -, rfl⟩ := tokenAfter_cases hrun
  exact ⟨⟨hs.solid, hs.opening⟩, trivial⟩

instance : Stays Front plainValue := by unfold plainValue; infer_instance

instance : Stays Front seesAsyncFunction := by unfold seesAsyncFunction; infer_instance

instance : Stays Front seesImportCall := by unfold seesImportCall; infer_instance

/-- The opening parenthesis has the front of a text behind it. -/
instance : Stays Front (expect "(") := by
  refine ⟨fun s u s' hs hrun => ?_⟩
  obtain ⟨token, s₁, hnext, hrest⟩ := run_bind hrun
  have htoken : token = s.lookahead := by
    obtain ⟨_, _, _, _, _, _, htoken, _⟩ := nextToken_cases hnext
    exact htoken
  split at hrest
  · obtain ⟨e, he⟩ : ∃ e, unexpected (α := Unit) token s₁ = .error e := ⟨_, rfl⟩
    rw [he] at hrest
    cases hrest
  · rename_i hmark
    cases hrest
    refine ⟨(front_of_nextToken (hs.opening ?_) hnext).2, trivial⟩
    have hparen : token.isMark "(" = true := by simpa using hmark
    rw [← htoken, isOpening, hparen]
    rfl

namespace Leads

variable {p : Parse α} {f : α → Parse β} {P : α → Prop} {Q : β → Prop}

theorem inherited (h : Leads p P) : Leads (inherited p) P := by
  unfold Grammar.inherited
  exact .skip fun before => .skip fun _ => .first h fun result hresult =>
    .skip fun _ => .pure hresult

theorem isolated (h : Leads p P) : Leads (isolated p) P := by
  unfold Grammar.isolated
  refine .skip fun before => .skip fun _ => .first h fun result hresult => .skip fun after => ?_
  split
  · exact unexpected_yields _
  · exact .skip fun _ => .pure hresult


/-- The token consumed is the one that was seen. -/
theorem token {f : Token → Parse β} (hf : ∀ s, Front s → Yields (f s.lookahead) Q) :
    Leads (nextToken >>= f) Q := by
  intro s b s' hs hrun
  obtain ⟨token, s₁, hnext, hrest⟩ := run_bind hrun
  obtain ⟨_, _, _, _, _, _, rfl, _⟩ := nextToken_cases hnext
  exact hf s hs s₁ b s' hrest

/-- A bracket that may be accepted. -/
theorem accept {text : String} {f : Bool → Parse β} (hyes : Yields (f true) Q)
    (hno : Leads (f false) Q) : Leads (accept text >>= f) Q := by
  intro s b s' hs hrun
  obtain ⟨accepted, s₁, haccept, hrest⟩ := run_bind hrun
  obtain ⟨seen, _, hsees, haccept⟩ := run_bind haccept
  cases hsees
  split at haccept
  · obtain ⟨_, _, _, haccept⟩ := run_bind haccept
    cases haccept
    exact hyes s₁ b s' hrest
  · cases haccept
    exact hno s b s' hs hrest

end Leads

/-- Behind a parenthesis or a minus sign stands the front of a text. -/
theorem LeadsAt.next {s : State} (hs : Front s) {f : Token → Parse β} {Q : β → Prop}
    (hopening : isOpening s.lookahead = true → Leads (f s.lookahead) Q)
    (hother : isOpening s.lookahead = false → Yields (f s.lookahead) Q) :
    LeadsAt s (nextToken >>= f) Q := by
  intro b s' hrun
  obtain ⟨token, s₁, hnext, hrest⟩ := run_bind hrun
  cases hopen : isOpening s.lookahead with
  | true =>
      obtain ⟨rfl, hs₁⟩ := front_of_nextToken (hs.opening hopen) hnext
      exact hopening hopen s₁ b s' hs₁ hrest
  | false =>
      obtain ⟨_, _, _, _, _, _, rfl, _⟩ := nextToken_cases hnext
      exact hother hopen s₁ b s' hrest

/-! ## Trees that start plainly -/

/-- Is it a tree, and does the name it is printed with first, if there is one, start
plainly? -/
structure IsPlain (t : Tree) : Prop where
  /-- It is a tree. -/
  not_null : t.isNull = false
  /-- The name starts plainly. -/
  opened : t.isPlainlyOpened = true

/-- Is this so of the first of several trees? -/
def StartsPlain (ts : List Tree) : Prop :=
  (openingFirst ts).all isPlainStart = true

/-- The kinds of what is printed with no name first. -/
def quietKinds : List String :=
  keywordKinds ++ ["BlockStatement", "EmptyStatement", "Literal", "ThisExpression", "Super",
    "Import", "ArrayExpression", "ObjectExpression", "FunctionExpression", "ClassExpression",
    "TemplateLiteral", "NewExpression", "AwaitExpression", "YieldExpression", "RestElement"]

section Plain

variable {kind : String} {fields : List (String × Tree)} {t : Tree} {ts : List Tree}

/-- The kinds of what may be printed with a part of it first. -/
def leadingKinds : List String := [
  "Program", "ExpressionStatement", "MemberExpression", "CallExpression",
  "TaggedTemplateExpression", "BinaryExpression", "LogicalExpression", "AssignmentExpression",
  "AssignmentPattern", "ConditionalExpression", "SequenceExpression", "UnaryExpression",
  "UpdateExpression", "ArrowFunctionExpression", "ArrowParameterPlaceHolder"]

theorem leadingField?_eq_none (h : kind ∉ leadingKinds) (t : Tree) : leadingField? kind t = none := by
  unfold leadingField?
  split
  all_goals first | exact absurd (by decide) h | rfl

theorem opening?_quiet (h : kind ∈ quietKinds) : (Tree.node kind fields).opening? = none := by
  have hall : quietKinds.all (fun kind => kind != "Identifier" && labelField? kind == none &&
      !leadingKinds.contains kind) = true := by decide
  have hkind := List.all_eq_true.1 hall kind h
  simp only [Bool.and_eq_true, bne_iff_ne, beq_iff_eq, Bool.not_eq_true'] at hkind
  refine opening?_other hkind.1.1 hkind.1.2 (leadingField?_eq_none (fun hmem => ?_) _)
  rw [List.contains_iff_mem.2 hmem] at hkind
  cases hkind.2

theorem plain_node (h : kind ∈ quietKinds) : IsPlain (.node kind fields) := by
  refine ⟨rfl, ?_⟩
  rw [isPlainlyOpened, opening?_quiet h]
  rfl

theorem plain_of_isA {kinds : List String} (h : IsA kinds t) (hkinds : kinds ⊆ quietKinds) :
    IsPlain t := by
  obtain ⟨kind, fields, rfl, hkind⟩ := isAny_iff.1 h.1
  exact plain_node (hkinds hkind)

/-- What is printed with a part of it first starts plainly if the part does. -/
theorem plain_leading (key : String) (h : leadingField? kind (.node kind fields) = some key)
    (hvalue : ((Tree.node kind fields).get key).isPlainlyOpened = true) :
    IsPlain (.node kind fields) := by
  refine ⟨rfl, ?_⟩
  rw [isPlainlyOpened, opening?_leading key h]
  exact hvalue

theorem IsPlain.leading (h : IsPlain (.node kind fields)) (key : String)
    (hleading : leadingField? kind (.node kind fields) = some key) :
    ((Tree.node kind fields).get key).isPlainlyOpened = true := by
  rw [isPlainlyOpened, ← opening?_leading key hleading]
  exact h.opened

/-- What is printed with a list first starts plainly if the list does. -/
theorem plain_leading_list (key : String) (h : leadingField? kind (.node kind fields) = some key)
    (hget : (Tree.node kind fields).get key = .list ts) (hts : StartsPlain ts) :
    IsPlain (.node kind fields) := by
  refine plain_leading key h ?_
  rw [hget, isPlainlyOpened, opening?]
  exact hts

theorem IsPlain.leading_list (h : IsPlain (.node kind fields)) (key : String)
    (hleading : leadingField? kind (.node kind fields) = some key)
    (hget : (Tree.node kind fields).get key = .list ts) : StartsPlain ts := by
  have hlist := h.leading key hleading
  rw [hget, isPlainlyOpened, opening?] at hlist
  exact hlist

theorem plain_identifier {name : String} (h : isPlainStart name = true) :
    IsPlain (identifier name) := by
  refine ⟨rfl, ?_⟩
  rw [isPlainlyOpened, identifier, opening?_identifier]
  exact h

theorem IsPlain.startsPlain (h : IsPlain t) (more : List Tree) : StartsPlain (t :: more) := by
  rw [StartsPlain, openingFirst, if_neg (by simp [h.not_null])]
  exact h.opened

end Plain

/-! ## Patterns -/

section Patterns

theorem isNull_asPattern (t : Tree) : (asPattern t).isNull = t.isNull := by
  unfold asPattern
  split <;> rfl

theorem isNull_patternOfItem (t : Tree) : (patternOfItem t).isNull = t.isNull := by
  unfold patternOfItem
  split
  · rfl
  · exact isNull_asPattern _

theorem openingFirst_map {change : Tree → Tree} {ts : List Tree}
    (hnull : ∀ t ∈ ts, (change t).isNull = t.isNull)
    (hopening : ∀ t ∈ ts, (change t).opening? = t.opening?) :
    openingFirst (ts.map change) = openingFirst ts := by
  induction ts with
  | nil => rfl
  | cons t rest ih =>
      rw [List.forall_mem_cons] at hnull hopening
      rw [List.map_cons, openingFirst, openingFirst, hnull.1, hopening.1, ih hnull.2 hopening.2]

theorem opening?_patternOfItem {t : Tree} (h : (asPattern t).opening? = t.opening?) :
    (patternOfItem t).opening? = t.opening? := by
  unfold patternOfItem
  split
  · rw [opening?_other (by decide) rfl rfl, opening?_other (by decide) rfl rfl]
  · exact h

theorem lookup_filter_ne {key other : String} (h : key ≠ other) (fields : List (String × Tree)) :
    (fields.filter fun field => field.1 ≠ other).lookup key = fields.lookup key := by
  induction fields with
  | nil => rfl
  | cons field rest ih =>
      rw [List.filter_cons, List.lookup_cons]
      by_cases hother : field.1 = other
      · have hkey : (key == field.1) = false := beq_eq_false_iff_ne.2 fun hkey => h (hkey.trans hother)
        rw [if_neg (by simpa using hother), ih, hkey]
      · rw [if_pos (by simpa using hother), List.lookup_cons, ih]

/-- A pattern is printed with the name first that the expression is printed with. -/
theorem opening?_asPattern (t : Tree) : (asPattern t).opening? = t.opening? := by
  induction t using branch_induction with
  | step t ih =>
      unfold asPattern
      split
      · rw [opening?_other (by decide) rfl rfl, opening?_other (by decide) rfl rfl]
      · rw [opening?_other (by decide) rfl rfl, opening?_other (by decide) rfl rfl]
      · rw [opening?_other (by decide) rfl rfl, opening?_other (by decide) rfl rfl]
      · rename_i fields
        rw [opening?_leading "left" rfl, opening?_leading "left" rfl]
        have hget : ∀ {kind fields}, (Tree.node kind fields).get "left" =
            (fields.lookup "left").getD .null := fun {_ _} => rfl
        rw [hget, hget, lookup_filter_ne (by decide), lookup_asPatternIn]
        cases hleft : fields.lookup "left" with
        | none => rfl
        | some value =>
            obtain ⟨before, after, rfl, -⟩ := List.lookup_eq_some_iff.1 hleft
            have hmem : ("left", value) ∈ before ++ ("left", value) :: after := by simp
            cases value with
            | list items =>
                change (Tree.list (items.map patternOfItem)).opening? = _
                simp only [opening?]
                refine openingFirst_map (fun t _ => isNull_patternOfItem t) fun t ht => ?_
                exact opening?_patternOfItem
                  (of_branches_item (P := fun t => (asPattern t).opening? = t.opening?) ih hmem ht)
            | node kind inner =>
                exact of_branches_field (P := fun t => (asPattern t).opening? = t.opening?) ih "left"
                  hmem rfl
            | _ => rfl
      · rfl

theorem IsPlain.asPattern {t : Tree} (h : IsPlain t) : IsPlain (asPattern t) := by
  refine ⟨(isNull_asPattern t).trans h.not_null, ?_⟩
  rw [isPlainlyOpened, opening?_asPattern]
  exact h.opened

theorem StartsPlain.map_asPattern {ts : List Tree} (h : StartsPlain ts) :
    StartsPlain (ts.map Grammar.asPattern) := by
  rw [StartsPlain, openingFirst_map (fun t _ => isNull_asPattern t) fun t _ => opening?_asPattern t]
  exact h

end Patterns

end NameRecovery.Grammar
