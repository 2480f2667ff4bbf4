import NameRecovery.Grammar.State

/-!
# What parsers yield

A claim about every result of a parser, whatever state it starts in.  Complaints
yield nothing, so every claim holds of them.

* `Yields` — every result of the parser satisfies the claim;
* `Yields.bind` — what follows may rely on what came before;
* `Yields.when`, `Yields.branch` — steps taken only in some states;
* `collect_yields` — a list of results, each of which satisfies the claim.
-/

namespace NameRecovery

theorem ok_of_toOption {ε α : Type} {x : Except ε α} {a : α} (h : x.toOption = some a) :
    x = .ok a := by
  cases x with
  | error e => cases h
  | ok b => rw [Option.some.inj h]

namespace Grammar

open Source

variable {α β : Type}

/-- Two parsers after each other have a result only if both have. -/
theorem run_bind {p : Parse α} {f : α → Parse β} {s s' : State} {b : β}
    (h : (p >>= f) s = .ok (b, s')) :
    ∃ a s₁, p s = .ok (a, s₁) ∧ f a s₁ = .ok (b, s') := by
  change (p s >>= fun r => f r.1 r.2) = .ok (b, s') at h
  cases hfirst : p s with
  | error e => rw [hfirst] at h; cases h
  | ok r =>
      rw [hfirst] at h
      exact ⟨r.1, r.2, rfl, h⟩

/-- Does every result of the parser satisfy `Q`? -/
def Yields (p : Parse α) (Q : α → Prop) : Prop :=
  ∀ s a s', p s = .ok (a, s') → Q a

namespace Yields

variable {p q : Parse α} {f : α → Parse β} {P : α → Prop} {Q : β → Prop}

theorem mono {P' : α → Prop} (h : Yields p P) (hP : ∀ a, P a → P' a) : Yields p P' :=
  fun s a s' hrun => hP a (h s a s' hrun)

theorem pure {a : α} (h : P a) : Yields (pure a) P := by
  intro s b s' hrun
  obtain ⟨rfl, -⟩ := Prod.mk.inj (Except.ok.inj hrun)
  exact h

theorem bind (hp : Yields p P) (hf : ∀ a, P a → Yields (f a) Q) : Yields (p >>= f) Q := by
  intro s b s' hrun
  obtain ⟨a, s₁, hfirst, hrest⟩ := run_bind hrun
  exact hf a (hp s a s₁ hfirst) s₁ b s' hrest

/-- A step whose result does not matter. -/
theorem skip (hf : ∀ a, Yields (f a) Q) : Yields (p >>= f) Q :=
  @bind α β p f (fun _ => True) Q (fun _ _ _ _ => trivial) fun a _ => hf a

theorem ite {c : Prop} [Decidable c] (hp : c → Yields p P) (hq : ¬ c → Yields q P) :
    Yields (if c then p else q) P := by
  split
  · exact hp ‹c›
  · exact hq ‹¬ c›

/-- A step taken only on a condition. -/
theorem when {c : Prop} [Decidable c] {p : Parse Unit} {f : Unit → Parse β}
    (hf : ∀ u, Yields (f u) Q) : Yields (if c then p >>= f else f ()) Q :=
  ite (fun _ => skip hf) fun _ => hf ()

/-- Such a step that needs the result of another one. -/
theorem whenWith {c : Prop} [Decidable c] {q : Parse α} {p : α → Parse Unit}
    {f : Unit → Parse β} (hf : ∀ u, Yields (f u) Q) :
    Yields (if c then q >>= fun b => p b >>= f else f ()) Q :=
  ite (fun _ => skip fun _ => skip hf) fun _ => hf ()

/-- Either of two steps, with the same continuation. -/
theorem branch {c : Prop} [Decidable c] (P : α → Prop) (hp : c → Yields p P)
    (hq : ¬ c → Yields q P) (hf : ∀ a, P a → Yields (f a) Q) :
    Yields (if c then p >>= f else q >>= f) Q :=
  ite (fun hc => bind (hp hc) hf) fun hc => bind (hq hc) hf

theorem of_error (h : ∀ s, ∃ e, p s = .error e) : Yields p P := by
  intro s a s' hrun
  obtain ⟨e, he⟩ := h s
  rw [he] at hrun
  cases hrun

end Yields

/-! ## Complaints -/

section Complaints

variable {Q : α → Prop} (c : Complaint) (token : Token)

theorem complain_yields : Yields (complain c) Q :=
  .of_error fun _ => ⟨_, rfl⟩

theorem complainAt_yields : Yields (complainAt token c) Q :=
  .of_error fun _ => ⟨_, rfl⟩

theorem unexpected_yields : Yields (unexpected token) Q :=
  .skip fun _ => complainAt_yields _ token

end Complaints

/-! ## Parsers in another context -/

section Contexts

variable {p : Parse α} {P : α → Prop}

theorem Yields.isolated (h : Yields p P) : Yields (isolated p) P := by
  unfold Grammar.isolated
  refine .skip fun before => .skip fun _ => .bind h fun result hresult => .skip fun after => ?_
  split
  · exact unexpected_yields _
  · exact .skip fun _ => .pure hresult

theorem Yields.inherited (h : Yields p P) : Yields (inherited p) P := by
  unfold Grammar.inherited
  exact .skip fun before => .skip fun _ => .bind h fun result hresult =>
    .skip fun _ => .pure hresult

end Contexts

/-! ## Lists -/

/-- What holds of a value, if there is one. -/
def OfSome (P : α → Prop) (o : Option α) : Prop :=
  ∀ a, o = some a → P a

theorem ofSome_none (P : α → Prop) : OfSome P none := nofun

theorem ofSome_some {P : α → Prop} {a : α} (h : P a) : OfSome P (some a) := by
  intro b hb
  rw [← Option.some.inj hb]
  exact h

theorem collect_yields {step : Parse (Option α)} {P : α → Prop} (h : Yields step (OfSome P))
    (budget : Nat) : Yields (collect step budget) fun values => ∀ a ∈ values, P a := by
  induction budget with
  | zero => exact complain_yields _
  | succ budget ih =>
      unfold collect
      refine .bind h fun value hvalue => ?_
      cases value with
      | none => exact .pure fun a ha => absurd ha List.not_mem_nil
      | some value =>
          refine .bind ih fun rest hrest => .pure fun a ha => ?_
          rcases List.mem_cons.1 ha with rfl | ha
          · exact hvalue a rfl
          · exact hrest a ha

/-- A loop over a list keeps what each of its steps keeps. -/
theorem forIn_yields {values : List α} {body : α → β → Parse (ForInStep β)} {I : β → Prop}
    (h : ∀ a ∈ values, ∀ b, I b → Yields (body a b) fun r => I r.value) {b : β} (hb : I b) :
    Yields (forIn values b body) I := by
  induction values generalizing b with
  | nil => rw [List.forIn_nil]; exact .pure hb
  | cons a rest ih =>
      rw [List.forIn_cons]
      refine .bind (h a List.mem_cons_self b hb) fun r hr => ?_
      cases r with
      | done b => exact .pure hr
      | yield b => exact ih (fun a ha => h a (List.mem_cons_of_mem _ ha)) hr

end Grammar

end NameRecovery
