import NameRecovery.Printer.Basic

/-!
# What printing gives

A claim about the result of a step of printing, if it has one.  A fault gives nothing,
so every claim holds of it.

* `Gives` — the result, if there is one, satisfies the claim;
* `Gives.bind`, `Gives.skip` — what follows may rely on what came before, or not.
-/

namespace NameRecovery.Printer

variable {α β γ : Type}

/-- Does the result satisfy `Q`, if there is one? -/
def Gives (x : Except Fault α) (Q : α → Prop) : Prop :=
  ∀ a, x = .ok a → Q a

namespace Gives

variable {x y : Except Fault α} {f : α → Except Fault β} {P : α → Prop} {Q : β → Prop}

theorem pure {a : α} (h : P a) : Gives (pure a) P := by
  intro b hb
  rw [← Except.ok.inj hb]
  exact h

theorem error (e : Fault) : Gives (.error e) P := nofun

theorem bind (hx : Gives x P) (hf : ∀ a, P a → Gives (f a) Q) : Gives (x >>= f) Q := by
  intro b hb
  cases x with
  | error e => cases hb
  | ok a => exact hf a (hx a rfl) b hb

/-- A step of which only the result is known. -/
theorem bindEq (hf : ∀ a, x = .ok a → Gives (f a) Q) : Gives (x >>= f) Q :=
  bind (fun _ ha => ha) hf

/-- A step whose result does not matter. -/
theorem skip (hf : ∀ a, Gives (f a) Q) : Gives (x >>= f) Q :=
  bindEq fun a _ => hf a

theorem ite {c : Prop} [Decidable c] (hx : c → Gives x P) (hy : ¬ c → Gives y P) :
    Gives (if c then x else y) P := by
  split
  · exact hx ‹c›
  · exact hy ‹¬ c›

end Gives

end NameRecovery.Printer
