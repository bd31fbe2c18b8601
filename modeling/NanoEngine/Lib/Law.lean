import Mathlib.Algebra.BigOperators.Fin
import Mathlib.Algebra.Field.Basic
import Mathlib.Tactic.Ring

/-!
# NanoEngine.Lib.Law — finite laws with exact weights

* `Law K α`: a list of outcomes with their weights; an outcome may occur more than once.
* `pure`, `map`, `bind`, `coin`, `categorical`: the draws that a sampler is made of.
* `expect`: the weighted sum of an observable.  Two laws are compared by it, since the list is only a presentation.
* `prob`: the weight of one outcome.
-/

structure Law (K α : Type*) where
  atoms : List (α × K)

namespace Law

variable {K α β : Type*}

/-- The weighted sum of `f`. -/
def expect [Semiring K] (l : Law K α) (f : α → K) : K := (l.atoms.map fun x => x.2 * f x.1).sum

/-- The weight of `a`. -/
def prob [Semiring K] [DecidableEq α] (l : Law K α) (a : α) : K := l.expect fun x => if x = a then 1 else 0

def pure [One K] (a : α) : Law K α := ⟨[(a, 1)]⟩

def map (f : α → β) (l : Law K α) : Law K β := ⟨l.atoms.map fun x => (f x.1, x.2)⟩

def bind [Mul K] (l : Law K α) (f : α → Law K β) : Law K β :=
  ⟨l.atoms.flatMap fun x => (f x.1).atoms.map fun y => (y.1, x.2 * y.2)⟩

/-- `true` with weight `p`. -/
def coin [Ring K] (p : K) : Law K Bool := ⟨[(true, p), (false, 1 - p)]⟩

/-- An index with the weight that `w` gives it, divided by the total weight. -/
def categorical [Field K] {n : ℕ} (w : Fin n → K) : Law K (Fin n) :=
  ⟨(List.finRange n).map fun i => (i, w i / ∑ j, w j)⟩

section Semiring

variable [Semiring K]

@[simp] theorem expect_pure (a : α) (f : α → K) : (pure a : Law K α).expect f = f a := by
  simp [pure, expect]

@[simp] theorem expect_map (g : α → β) (l : Law K α) (f : β → K) :
    (l.map g).expect f = l.expect fun x => f (g x) := by
  simp [map, expect, Function.comp_def]

@[simp] theorem expect_bind (l : Law K α) (g : α → Law K β) (f : β → K) :
    (l.bind g).expect f = l.expect fun x => (g x).expect f := by
  obtain ⟨atoms⟩ := l
  simp only [bind, expect]
  induction atoms with
  | nil => rfl
  | cons x atoms ih =>
    rw [List.flatMap_cons, List.map_append, List.sum_append, ih, List.map_cons, List.sum_cons, List.map_map,
      ← List.sum_map_mul_left]
    simp only [Function.comp_def, mul_assoc]

end Semiring

@[simp] theorem expect_coin [Ring K] (p : K) (f : Bool → K) :
    (coin p).expect f = p * f true + (1 - p) * f false := by
  simp [coin, expect]

@[simp] theorem expect_categorical [Field K] {n : ℕ} (w : Fin n → K) (f : Fin n → K) :
    (categorical w).expect f = ∑ i, w i / (∑ j, w j) * f i := by
  simp [categorical, expect, Function.comp_def, Fin.sum_univ_def]

end Law
