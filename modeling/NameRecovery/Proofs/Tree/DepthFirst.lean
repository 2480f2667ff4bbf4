import Mathlib.Logic.Relation
import NameRecovery.Tree.Basic

/-!
# Depth first, with a stack and without

A traversal that goes depth first can recurse.  Or it keeps the places left on a stack: it takes
the top off, and pushes what is right inside it in reverse, so that the first comes to lie on top.

* `DepthFirst.step` — the traversal that keeps a stack;
* `DepthFirst.Lists` — the traversal that recurses;
* `DepthFirst.Lists.steps` — whatever lies on the stack below, the stack yields what the recursion
  lists;
* `DepthFirst.Lists.ends` — so it comes to an end, and to no other.
-/

namespace NameRecovery

/-- Where no choice is ever left, every state on the way to a last one goes on to it. -/
theorem reaches_last {σ : Type} {r : σ → σ → Prop} (hunique : Relator.RightUnique r)
    {first last state : σ} (hlast : ∀ next, ¬ r last next)
    (hend : Relation.ReflTransGen r first last) (h : Relation.ReflTransGen r first state) :
    Relation.ReflTransGen r state last := by
  rcases Relation.ReflTransGen.total_of_right_unique hunique h hend with hon | hback
  · exact hon
  · rcases Relation.ReflTransGen.cases_head hback with rfl | ⟨next, hstep, -⟩
    · exact .refl
    · exact absurd hstep (hlast next)

namespace DepthFirst

variable {α β : Type}

/-! ## With a stack -/

/-- What there is to a place: what it yields, and the places right inside it in order.  It may
be of no shape to be read. -/
abbrev Expansion (α β : Type) :=
  α → Except Fault (List β × List α)

/-- A traversal on its way. -/
structure Traversal (α β : Type) where
  /-- The places left, the top of the stack first. -/
  stack : List α
  /-- What has been yielded so far. -/
  yielded : List β := []

/-- Push places onto a stack, one after the other. -/
def pushAll (places stack : List α) : List α :=
  places.foldl (fun stack place => place :: stack) stack

/-- Take the top off the stack, yield what it yields, and push what is right inside it in
reverse.  Nothing is left to do when the stack is empty. -/
def step (expand : Expansion α β) (m : Traversal α β) : Except Fault (Option (Traversal α β)) :=
  match m.stack with
  | [] => .ok none
  | place :: stack => do
    let (found, inner) ← expand place
    return some ⟨pushAll inner.reverse stack, m.yielded ++ found⟩

/-- Any number of steps. -/
def Steps (expand : Expansion α β) : Traversal α β → Traversal α β → Prop :=
  Relation.ReflTransGen fun m m' => step expand m = .ok (some m')

/-! ## With recursion -/

/-- What places yield, one after the other, each followed by what is inside it. -/
inductive Lists (expand : Expansion α β) : List α → List β → Prop where
  | nil : Lists expand [] []
  | cons {place : α} {rest inner : List α} {found below behind : List β} :
      expand place = .ok (found, inner) → Lists expand inner below → Lists expand rest behind →
      Lists expand (place :: rest) (found ++ (below ++ behind))

variable {expand : Expansion α β}

theorem Lists.single {place : α} {inner : List α} {found below : List β}
    (hexpand : expand place = .ok (found, inner)) (hinner : Lists expand inner below) :
    Lists expand [place] (found ++ below) := by
  have h := Lists.cons hexpand hinner .nil
  rwa [List.append_nil] at h

theorem Lists.append {first rest : List α} {found behind : List β}
    (hfirst : Lists expand first found) (hrest : Lists expand rest behind) :
    Lists expand (first ++ rest) (found ++ behind) := by
  induction hfirst with
  | nil => exact hrest
  | cons hexpand hinner _ _ ih =>
      rw [List.cons_append, List.append_assoc, List.append_assoc]
      exact .cons hexpand hinner ih

/-- What places yield is told by what each of them yields. -/
theorem Lists.flatMap {ι : Type} {places : List ι} {place : ι → α} {found : ι → List β}
    (h : ∀ i ∈ places, Lists expand [place i] (found i)) :
    Lists expand (places.map place) (places.flatMap found) := by
  induction places with
  | nil => exact .nil
  | cons i rest ih =>
      rw [List.map_cons, List.flatMap_cons]
      exact (h i List.mem_cons_self).append (ih fun j hj => h j (List.mem_cons_of_mem _ hj))

/-! ## The stack yields what the recursion lists -/

/-- Pushed in reverse, the first place comes to lie on top. -/
theorem pushAll_reverse (places stack : List α) :
    pushAll places.reverse stack = places ++ stack := by
  rw [pushAll, List.foldl_reverse]
  exact List.foldr_cons_eq_append' ..

theorem step_cons {place : α} {inner : List α} {found : List β}
    (h : expand place = .ok (found, inner)) (stack : List α) (yielded : List β) :
    step expand ⟨place :: stack, yielded⟩ = .ok (some ⟨inner ++ stack, yielded ++ found⟩) := by
  simp only [step, h, pushAll_reverse, bind, Except.bind, pure, Except.pure]

/-- **The stack yields what the recursion lists**, whatever lies below on it. -/
theorem Lists.steps {places : List α} {found : List β} (h : Lists expand places found)
    (stack : List α) (yielded : List β) :
    Steps expand ⟨places ++ stack, yielded⟩ ⟨stack, yielded ++ found⟩ := by
  induction h generalizing stack yielded with
  | nil => rw [List.append_nil]; exact .refl
  | @cons place rest inner found below behind hexpand _ _ ihinner ihrest =>
      have hinner := ihinner (rest ++ stack) (yielded ++ found)
      have hrest := ihrest stack (yielded ++ found ++ below)
      rw [List.cons_append, ← List.append_assoc found, ← List.append_assoc, ← List.append_assoc]
      exact .head (step_cons hexpand _ _) (hinner.trans hrest)

/-- An empty stack is the end: every state on the way goes on to it. -/
theorem Lists.ends {places : List α} {found : List β} (h : Lists expand places found)
    {m : Traversal α β} (hm : Steps expand ⟨places, []⟩ m) : Steps expand m ⟨[], found⟩ := by
  have hunique : Relator.RightUnique fun m m' : Traversal α β => step expand m = .ok (some m') :=
    fun _ _ _ h h' => Option.some.inj (Except.ok.inj (h.symm.trans h'))
  have hend := h.steps [] []
  rw [List.append_nil] at hend
  refine reaches_last hunique (fun next hnext => ?_) hend hm
  cases hnext

/-- The recursion lists one thing at most. -/
theorem Lists.unique {places : List α} {found found' : List β} (h : Lists expand places found)
    (h' : Lists expand places found') : found' = found := by
  have hend := h'.steps [] []
  rw [List.append_nil] at hend
  rcases Relation.ReflTransGen.cases_head (h.ends hend) with heq | ⟨m, hstep, -⟩
  · exact congrArg Traversal.yielded heq
  · cases hstep

end DepthFirst

end NameRecovery
