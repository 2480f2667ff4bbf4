import NameRecovery.Proofs.Grammar.Yields

/-!
# Invariants of parsing

A parser touches the text only where it reads a token, so that whatever reading a token
keeps, every parser keeps.

* `Steady` — reading a token keeps the invariant, which depends on nothing else;
* `Makes` — from a state with the invariant the parser comes to one, with a result of
  which the claim holds;
* `Stays` — a step that keeps the invariant and of whose result nothing need be known;
  it is found by the shape of the step.
-/

namespace NameRecovery.Grammar

open Source

variable {α β : Type}

/-- Is it a slash, where a regular expression may start? -/
def isSlash (token : Token) : Bool :=
  token.isMark "/" || token.isMark "/="

/-- Is `I` about the text and the place in it only, and kept when a token is read? -/
class Steady (I : State → Prop) : Prop where
  /-- Nothing but the text and the place matters. -/
  frame : ∀ {s s' : State}, I s → s'.cursor = s.cursor → s'.braces = s.braces →
    s'.lookahead = s.lookahead → s'.lookaheadStart = s.lookaheadStart → I s'
  /-- Consuming the lookahead keeps it. -/
  next : ∀ {s s' : State} {token : Token}, I s → nextToken s = .ok (token, s') → I s'
  /-- Looking at the token behind it does. -/
  after : ∀ {s s' : State} {token : Token}, I s → tokenAfter s = .ok (token, s') → I s'
  /-- Reading a slash again as a regular expression does. -/
  regex : ∀ {s s' : State} {token : Token}, I s → isSlash s.lookahead = true →
    nextRegex s = .ok (token, s') → I s'

/-- Does the parser keep `I`, with a result that satisfies `Q`? -/
def Makes (I : State → Prop) (p : Parse α) (Q : α → Prop) : Prop :=
  ∀ s a s', I s → p s = .ok (a, s') → I s' ∧ Q a

/-- Does the step keep `I`? -/
class Stays (I : State → Prop) (p : Parse α) : Prop where
  /-- It does. -/
  makes : Makes I p fun _ => True

variable {I : State → Prop}

namespace Makes

variable {p q : Parse α} {f : α → Parse β} {P P' : α → Prop} {Q : β → Prop}

theorem mono (h : Makes I p P) (hP : ∀ a, P a → P' a) : Makes I p P' := by
  intro s a s' hs hrun
  exact (h s a s' hs hrun).imp_right (hP a)

theorem pure {a : α} (h : P a) : Makes I (pure a) P := by
  intro s b s' hs hrun
  obtain ⟨rfl, rfl⟩ := Prod.mk.inj (Except.ok.inj hrun)
  exact ⟨hs, h⟩

theorem bind (hp : Makes I p P) (hf : ∀ a, P a → Makes I (f a) Q) : Makes I (p >>= f) Q := by
  intro s b s' hs hrun
  obtain ⟨a, s₁, hfirst, hrest⟩ := run_bind hrun
  obtain ⟨hs₁, ha⟩ := hp s a s₁ hs hfirst
  exact hf a ha s₁ b s' hs₁ hrest

/-- A step whose result does not matter. -/
theorem skip [Stays I p] (hf : ∀ a, Makes I (f a) Q) : Makes I (p >>= f) Q :=
  bind Stays.makes fun a _ => hf a

theorem ite {c : Prop} [Decidable c] (hp : c → Makes I p P) (hq : ¬ c → Makes I q P) :
    Makes I (if c then p else q) P := by
  split
  · exact hp ‹c›
  · exact hq ‹¬ c›

/-- A step taken only on a condition. -/
theorem when {c : Prop} [Decidable c] {p : Parse Unit} {f : Unit → Parse β} [Stays I p]
    (hf : ∀ u, Makes I (f u) Q) : Makes I (if c then p >>= f else f ()) Q :=
  ite (fun _ => skip hf) fun _ => hf ()

/-- Such a step that needs the result of another one. -/
theorem whenWith {c : Prop} [Decidable c] {q : Parse α} {p : α → Parse Unit}
    {f : Unit → Parse β} [Stays I q] [∀ a, Stays I (p a)] (hf : ∀ u, Makes I (f u) Q) :
    Makes I (if c then q >>= fun b => p b >>= f else f ()) Q :=
  ite (fun _ => skip fun _ => skip hf) fun _ => hf ()

/-- Either of two steps, with the same continuation. -/
theorem branch {c : Prop} [Decidable c] (P : α → Prop) (hp : c → Makes I p P)
    (hq : ¬ c → Makes I q P) (hf : ∀ a, P a → Makes I (f a) Q) :
    Makes I (if c then p >>= f else q >>= f) Q :=
  ite (fun hc => bind (hp hc) hf) fun hc => bind (hq hc) hf

theorem of_error (h : ∀ s, ∃ e, p s = .error e) : Makes I p P := by
  intro s a s' _ hrun
  obtain ⟨e, he⟩ := h s
  rw [he] at hrun
  cases hrun

/-- A step that reads something off the state. -/
theorem of_read {read : State → α} (hread : ∀ s, p s = .ok (read s, s))
    (h : ∀ s, I s → P (read s)) : Makes I p P := by
  intro s a s' hs hrun
  rw [hread s] at hrun
  obtain ⟨rfl, rfl⟩ := Prod.mk.inj (Except.ok.inj hrun)
  exact ⟨hs, h s hs⟩

end Makes

/-! ## Complaints -/

section Complaints

variable {Q : α → Prop} (c : Complaint) (token : Token)

theorem complain_makes : Makes I (complain c) Q :=
  .of_error fun _ => ⟨_, rfl⟩

theorem complainLate_makes : Makes I (complainLate c) Q :=
  .of_error fun _ => ⟨_, rfl⟩

theorem complainAt_makes : Makes I (complainAt token c) Q :=
  .of_error fun _ => ⟨_, rfl⟩

theorem unexpected_makes : Makes I (unexpected token) Q :=
  .of_error fun _ => ⟨_, rfl⟩

instance : Stays I (complain c : Parse α) := ⟨complain_makes c⟩

instance : Stays I (complainLate c : Parse α) := ⟨complainLate_makes c⟩

instance : Stays I (complainAt token c : Parse α) := ⟨complainAt_makes c token⟩

instance : Stays I (unexpected token : Parse α) := ⟨unexpected_makes token⟩

end Complaints

/-! ## Steps by their shape -/

instance (a : α) : Stays I (pure a : Parse α) := ⟨.pure trivial⟩

instance (p : Parse α) (f : α → Parse β) [Stays I p] [∀ a, Stays I (f a)] :
    Stays I (p >>= f) :=
  ⟨.skip fun _ => Stays.makes⟩

instance (c : Prop) [Decidable c] (p q : Parse α) [Stays I p] [Stays I q] :
    Stays I (if c then p else q) :=
  ⟨.ite (fun _ => Stays.makes) fun _ => Stays.makes⟩

instance (culprit : Option Token) (c : Complaint) : Stays I (complainAbout culprit c : Parse α) := by
  unfold complainAbout
  split <;> infer_instance

/-! ## Looking at the state -/

instance : Stays I (get : Parse State) := ⟨.of_read (fun _ => rfl) fun _ _ => trivial⟩

instance : Stays I lookahead := ⟨.of_read (fun _ => rfl) fun _ _ => trivial⟩

instance (text : String) : Stays I (sees text) := ⟨.of_read (fun _ => rfl) fun _ _ => trivial⟩

instance (texts : List String) : Stays I (seesAny texts) :=
  ⟨.of_read (fun _ => rfl) fun _ _ => trivial⟩

instance (text : String) : Stays I (seesKeyword text) :=
  ⟨.of_read (fun _ => rfl) fun _ _ => trivial⟩

instance (text : String) : Stays I (seesName text) :=
  ⟨.of_read (fun _ => rfl) fun _ _ => trivial⟩

instance : Stays I seesEnd := ⟨.of_read (fun _ => rfl) fun _ _ => trivial⟩

instance : Stays I newlineBefore := ⟨.of_read (fun _ => rfl) fun _ _ => trivial⟩

instance : Stays I context := ⟨.of_read (fun _ => rfl) fun _ _ => trivial⟩

/-! ## Tokens and the context -/

section Steady

variable [Steady I]

instance : Stays I nextToken := ⟨fun _ _ _ hs hrun => ⟨Steady.next hs hrun, trivial⟩⟩

instance : Stays I tokenAfter := ⟨fun _ _ _ hs hrun => ⟨Steady.after hs hrun, trivial⟩⟩

instance (change : Context → Context) : Stays I (changeContext change) := by
  refine ⟨fun s a s' hs hrun => ?_⟩
  cases hrun
  exact ⟨Steady.frame hs rfl rfl rfl rfl, trivial⟩

instance : Stays I (modify fun s : State => { s with last := Marker.ofCursor s.cursor }) := by
  refine ⟨fun s a s' hs hrun => ?_⟩
  cases hrun
  exact ⟨Steady.frame hs rfl rfl rfl rfl, trivial⟩

instance : Stays I (modify fun s : State => { s with last := Marker.ofCursor s.lookaheadStart }) := by
  refine ⟨fun s a s' hs hrun => ?_⟩
  cases hrun
  exact ⟨Steady.frame hs rfl rfl rfl rfl, trivial⟩

instance : Stays I plainValue := by unfold plainValue; infer_instance

instance : Stays I plainTarget := by unfold plainTarget; infer_instance

instance (text : String) : Stays I (expect text) := by unfold expect; infer_instance

instance (text : String) : Stays I (expectKeyword text) := by unfold expectKeyword; infer_instance

instance (text : String) : Stays I (accept text) := by unfold accept; infer_instance

instance : Stays I endStatement := by unfold endStatement; infer_instance

variable {p : Parse α} {P : α → Prop}

theorem Makes.isolated (h : Makes I p P) : Makes I (isolated p) P := by
  unfold Grammar.isolated
  refine .skip fun before => .skip fun _ => .bind h fun result hresult => .skip fun after => ?_
  split
  · exact unexpected_makes _
  · exact .skip fun _ => .pure hresult

theorem Makes.inherited (h : Makes I p P) : Makes I (inherited p) P := by
  unfold Grammar.inherited
  exact .skip fun before => .skip fun _ => .bind h fun result hresult =>
    .skip fun _ => .pure hresult

end Steady

/-! ## Reading a token -/

section Reading

variable {s s' : State} {token : Token}

theorem scan_ok {result : Scan α} {a : α} (h : scan result s = .ok (a, s')) :
    result = .ok a ∧ s' = s := by
  cases result with
  | error e => cases h
  | ok b => cases h; exact ⟨rfl, rfl⟩

/-- Consuming the lookahead passes a gap and the token behind it. -/
theorem nextToken_cases (h : nextToken s = .ok (token, s')) :
    ∃ start found stop braces, skipGap s.context.isModule s.cursor = .ok start ∧
      scanToken s.braces start = .ok (found, stop, braces) ∧ token = s.lookahead ∧
      s' = { s with
        cursor := stop
        braces
        lookahead := if s.context.strict then Token.inStrict found else found
        lookaheadStart := start
        newline := s.lookahead.line != found.line
        last := Marker.ofCursor s.cursor } := by
  obtain ⟨_, _, hget, h⟩ := run_bind h
  obtain ⟨rfl, rfl⟩ := Prod.mk.inj (Except.ok.inj hget)
  obtain ⟨start, _, hgap, h⟩ := run_bind h
  obtain ⟨hgap, rfl⟩ := scan_ok hgap
  obtain ⟨⟨found, stop, braces⟩, _, hfound, h⟩ := run_bind h
  obtain ⟨hfound, rfl⟩ := scan_ok hfound
  obtain ⟨_, _, hset, h⟩ := run_bind h
  cases hset
  cases h
  exact ⟨start, found, stop, braces, hgap, hfound, rfl, rfl⟩

/-- Looking at the token behind the lookahead changes nothing but the open braces. -/
theorem tokenAfter_cases (h : tokenAfter s = .ok (token, s')) :
    ∃ start stop braces, skipGap s.context.isModule s.cursor = .ok start ∧
      scanToken s.braces start = .ok (token, stop, braces) ∧ s' = { s with braces } := by
  obtain ⟨_, _, hget, h⟩ := run_bind h
  obtain ⟨rfl, rfl⟩ := Prod.mk.inj (Except.ok.inj hget)
  obtain ⟨start, _, hgap, h⟩ := run_bind h
  obtain ⟨hgap, rfl⟩ := scan_ok hgap
  obtain ⟨⟨found, stop, braces⟩, _, hfound, h⟩ := run_bind h
  obtain ⟨hfound, rfl⟩ := scan_ok hfound
  obtain ⟨_, _, hset, h⟩ := run_bind h
  cases hset
  cases h
  exact ⟨start, stop, braces, hgap, hfound, rfl⟩

end Reading

/-! ## Steps that depend on what is seen -/

/-- What `Makes` says of a single state. -/
def MakesAt (I : State → Prop) (s : State) (p : Parse α) (Q : α → Prop) : Prop :=
  ∀ a s', p s = .ok (a, s') → I s' ∧ Q a

section MakesAt

variable {p : Parse α} {f : α → Parse β} {P : α → Prop} {Q : β → Prop} {s : State}

theorem makes_iff : Makes I p P ↔ ∀ s, I s → MakesAt I s p P :=
  ⟨fun h s hs a s' hrun => h s a s' hs hrun, fun h s a s' hs hrun => h s hs a s' hrun⟩

theorem Makes.at (h : Makes I p P) (hs : I s) : MakesAt I s p P :=
  makes_iff.1 h s hs

namespace MakesAt

/-- A step that only looks at the state. -/
theorem read {a : α} (hp : p s = .ok (a, s)) (hf : MakesAt I s (f a) Q) :
    MakesAt I s (p >>= f) Q := by
  intro b s' hrun
  obtain ⟨a', s₁, hfirst, hrest⟩ := run_bind hrun
  obtain ⟨rfl, rfl⟩ := Prod.mk.inj (Except.ok.inj (hfirst.symm.trans hp))
  exact hf b s' hrest

theorem bind (hp : MakesAt I s p P) (hf : ∀ a, P a → Makes I (f a) Q) :
    MakesAt I s (p >>= f) Q := by
  intro b s' hrun
  obtain ⟨a, s₁, hfirst, hrest⟩ := run_bind hrun
  obtain ⟨hs₁, ha⟩ := hp a s₁ hfirst
  exact hf a ha s₁ b s' hs₁ hrest

theorem ite {c : Prop} [Decidable c] {q : Parse α} (hp : c → MakesAt I s p P)
    (hq : ¬ c → MakesAt I s q P) : MakesAt I s (if c then p else q) P := by
  split
  · exact hp ‹c›
  · exact hq ‹¬ c›

/-- A step that complains or leaves the state as it is. -/
theorem check (hp : ∀ a s', p s = .ok (a, s') → s' = s) (hf : ∀ a, MakesAt I s (f a) Q) :
    MakesAt I s (p >>= f) Q := by
  intro b s' hrun
  obtain ⟨a, s₁, hfirst, hrest⟩ := run_bind hrun
  obtain rfl := hp a s₁ hfirst
  exact hf a b s' hrest

/-- A complaint made only on a condition. -/
theorem passing {c : Prop} [Decidable c] {p : Parse Unit} {f : Unit → Parse β}
    (hp : ∀ s, ∃ e, p s = .error e) (hf : MakesAt I s (f ()) Q) :
    MakesAt I s (if c then p >>= f else f ()) Q := by
  refine ite (fun _ => check (fun a s' hrun => ?_) fun _ => hf) fun _ => hf
  obtain ⟨e, he⟩ := hp s
  rw [he] at hrun
  cases hrun

/-- A step after which the same token is seen. -/
theorem change [Steady I] {change : Context → Context} {f : Unit → Parse β} (hs : I s)
    (hf : ∀ s₁, I s₁ → s₁.lookahead = s.lookahead → MakesAt I s₁ (f ()) Q) :
    MakesAt I s (changeContext change >>= f) Q := by
  intro b s' hrun
  obtain ⟨u, s₁, hfirst, hrest⟩ := run_bind hrun
  obtain ⟨rfl, rfl⟩ := Prod.mk.inj (Except.ok.inj hfirst)
  refine hf { s with context := change s.context } ?_ rfl b s' hrest
  exact Steady.frame hs rfl rfl rfl rfl

end MakesAt

/-- A parser that goes on after what it sees. -/
theorem makes_seeing {f : Token → Parse β} (hf : ∀ s, I s → MakesAt I s (f s.lookahead) Q) :
    Makes I (lookahead >>= f) Q :=
  makes_iff.2 fun s hs => .read rfl (hf s hs)

/-- The token consumed is the one that was seen. -/
theorem nextToken_at [Steady I] (hs : I s) : MakesAt I s nextToken (· = s.lookahead) := by
  intro token s' hrun
  obtain ⟨start, found, stop, braces, -, -, htoken, -⟩ := nextToken_cases hrun
  exact ⟨Steady.next hs hrun, htoken⟩

/-- What goes on behind a step goes on with the invariant. -/
theorem run_skip [Stays I p] {b : β} {s' : State} (hs : I s) (h : (p >>= f) s = .ok (b, s')) :
    ∃ a s₁, I s₁ ∧ f a s₁ = .ok (b, s') := by
  obtain ⟨a, s₁, hfirst, hrest⟩ := run_bind h
  exact ⟨a, s₁, (Stays.makes s a s₁ hs hfirst).1, hrest⟩

/-- What goes on behind a step taken only on a condition does. -/
theorem run_when {c : Prop} [Decidable c] {p : Parse Unit} {f : Unit → Parse β} [Stays I p]
    {b : β} {s' : State} (hs : I s) (h : (if c then p >>= f else f ()) s = .ok (b, s')) :
    ∃ s₁, I s₁ ∧ f () s₁ = .ok (b, s') := by
  split at h
  · obtain ⟨a, s₁, hs₁, hrest⟩ := run_skip hs h
    exact ⟨s₁, hs₁, hrest⟩
  · exact ⟨s, hs, h⟩

end MakesAt

/-! ## Lists -/

theorem collect_makes {step : Parse (Option α)} {P : α → Prop} (h : Makes I step (OfSome P))
    (budget : Nat) : Makes I (collect step budget) fun values => ∀ a ∈ values, P a := by
  induction budget with
  | zero => exact complain_makes _
  | succ budget ih =>
      unfold collect
      refine .bind h fun value hvalue => ?_
      cases value with
      | none => exact .pure fun a ha => absurd ha List.not_mem_nil
      | some value =>
          refine .bind ih fun rest hrest => .pure fun a ha => ?_
          rcases List.mem_cons.1 ha with rfl | ha
          · exact hvalue a rfl
          · exact hrest a ha

/-- What ends a list is a step that gives nothing. -/
theorem collect_last {step : Parse (Option α)} {budget : Nat} {s s' : State} {values : List α}
    (h : collect step budget s = .ok (values, s')) : ∃ s₁, step s₁ = .ok (none, s') := by
  induction budget generalizing s values with
  | zero => cases h
  | succ budget ih =>
      unfold collect at h
      obtain ⟨value, s₁, hstep, h⟩ := run_bind h
      cases value with
      | none => cases h; exact ⟨s, hstep⟩
      | some a =>
          obtain ⟨more, s₂, hmore, h⟩ := run_bind h
          cases h
          exact ih hmore

/-- A loop over a list keeps what each of its steps keeps. -/
theorem forIn_makes {values : List α} {body : α → β → Parse (ForInStep β)} {J : β → Prop}
    (h : ∀ a ∈ values, ∀ b, J b → Makes I (body a b) fun r => J r.value) {b : β} (hb : J b) :
    Makes I (forIn values b body) J := by
  induction values generalizing b with
  | nil => rw [List.forIn_nil]; exact .pure hb
  | cons a rest ih =>
      rw [List.forIn_cons]
      refine .bind (h a List.mem_cons_self b hb) fun r hr => ?_
      cases r with
      | done b => exact .pure hr
      | yield b => exact ih (fun a ha => h a (List.mem_cons_of_mem _ ha)) hr

end NameRecovery.Grammar
