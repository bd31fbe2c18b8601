import Mathlib.Data.Option.Basic
import Mathlib.Logic.Relation
import Mathlib.Tactic.Common

/-!
# NanoEngine.Lib.Transition — guarded runs of a deterministic transition system

* `System σ α`: initial states and a partial step function; `next s a = none` when `a` cannot be done in `s`.
* `Reachable T G`: the states reached by runs whose steps all pass the guard `G`.
* `run T G`: the same as a function on the list of labels, so that a concrete run can be evaluated.
* `System.ghost`: the system together with a component that only follows its steps.
* `Invariant T G I`: `I` holds initially and every guarded step keeps it; `Invariant.holds` is the induction.
* `run_length`, `exists_run`: a measure that every step lowers bounds the runs and leads them to their end.
-/

namespace Transition

universe u v

variable {σ : Type u} {α : Type v}

structure System (σ : Type u) (α : Type v) where
  initial : σ → Prop
  next : σ → α → Option σ

/-- The guard that lets every step pass. -/
def always : σ → α → Bool := fun _ _ => true

/-- The states that runs within the guard reach. -/
inductive Reachable (T : System σ α) (G : σ → α → Bool) : σ → Prop
  | initial {s : σ} : T.initial s → Reachable T G s
  | next {s s' : σ} {a : α} : Reachable T G s → G s a = true → T.next s a = some s' → Reachable T G s'

/-- One run: the labels are done in order, `none` when the guard or the system refuses one. -/
def run (T : System σ α) (G : σ → α → Bool) : List α → σ → Option σ
  | [], s => some s
  | a :: as, s => if G s a then (T.next s a).bind (run T G as) else none

variable {T : System σ α} {G H : σ → α → Bool}

theorem run_append (as bs : List α) (s : σ) : run T G (as ++ bs) s = (run T G as s).bind (run T G bs) := by
  induction as generalizing s with
  | nil => rfl
  | cons a as ih =>
    rw [List.cons_append, run, run]
    split
    case isTrue =>
      rw [Option.bind_assoc]
      exact congrArg _ (funext ih)
    case isFalse => rfl

theorem Reachable.of_run {as : List α} {s s' : σ} (hs : Reachable T G s) (h : run T G as s = some s') :
    Reachable T G s' := by
  induction as generalizing s with
  | nil =>
    cases h
    exact hs
  | cons a as ih =>
    unfold run at h
    split at h
    case isTrue hG =>
      obtain ⟨s₁, h₁, h₂⟩ := Option.bind_eq_some_iff.1 h
      exact ih (hs.next hG h₁) h₂
    case isFalse => cases h

/-- A run that can be evaluated reaches a state with what is checked at its end. -/
theorem Reachable.exists_of_run {P : σ → Bool} (as : List α) {s : σ} (hs : T.initial s)
    (h : (run T G as s).map P = some true) : ∃ s', Reachable T G s' ∧ P s' = true := by
  obtain ⟨s', hrun, hP⟩ := Option.map_eq_some_iff.1 h
  exact ⟨s', (Reachable.initial hs).of_run hrun, hP⟩

/-- A weaker guard reaches at least as much. -/
theorem Reachable.mono {s : σ} (hGH : ∀ s a, G s a = true → H s a = true) (h : Reachable T G s) :
    Reachable T H s := by
  induction h with
  | initial h => exact .initial h
  | next _ hG hn ih => exact ih.next (hGH _ _ hG) hn

/-- The system with a ghost: a component that follows the steps and that no step reads. -/
def System.ghost {γ : Type*} (T : System σ α) (init : γ) (follow : σ → α → σ → γ → γ) :
    System (σ × γ) α where
  initial p := T.initial p.1 ∧ p.2 = init
  next p a := (T.next p.1 a).map fun s' => (s', follow p.1 a s' p.2)

/-- `I` holds initially and along every guarded step. -/
structure Invariant (T : System σ α) (G : σ → α → Bool) (I : σ → Prop) : Prop where
  initial : ∀ s, T.initial s → I s
  next : ∀ s a s', I s → G s a = true → T.next s a = some s' → I s'

/-- **Invariant rule**: an invariant holds in every state that a guarded run reaches. -/
theorem Invariant.holds {I : σ → Prop} (hI : Invariant T G I) {s : σ} (h : Reachable T G s) : I s := by
  induction h with
  | initial h => exact hI.initial _ h
  | next _ hG hn ih => exact hI.next _ _ _ ih hG hn

section Measure

variable {I final : σ → Prop} {μ : σ → ℕ}

/-- A run is no longer than its measure falls. -/
theorem run_length (hμ : ∀ s a s', T.next s a = some s' → μ s' < μ s) {as : List α} {s s' : σ}
    (h : run T G as s = some s') : as.length + μ s' ≤ μ s := by
  induction as generalizing s with
  | nil =>
    cases h
    exact Nat.le_of_eq (Nat.zero_add _)
  | cons a as ih =>
    unfold run at h
    split at h
    case isTrue hG =>
      obtain ⟨s₁, h₁, h₂⟩ := Option.bind_eq_some_iff.1 h
      have hstep := hμ _ _ _ h₁
      have hrest := ih h₂
      rw [List.length_cons]
      omega
    case isFalse => cases h

/-- A state that is not final has a step, so a final state is reached. -/
theorem exists_run (hμ : ∀ s a s', T.next s a = some s' → μ s' < μ s)
    (hI : ∀ s a s', I s → G s a = true → T.next s a = some s' → I s')
    (hstep : ∀ s, I s → ¬ final s → ∃ a s', G s a = true ∧ T.next s a = some s') {s : σ} (hs : I s) :
    ∃ as s', run T G as s = some s' ∧ final s' := by
  induction hn : μ s using Nat.strongRecOn generalizing s with
  | ind n ih =>
    by_cases hfin : final s
    · exact ⟨[], s, rfl, hfin⟩
    · obtain ⟨a, s₁, hG, h₁⟩ := hstep s hs hfin
      obtain ⟨as, s', hrun, hfin'⟩ := ih _ (hn ▸ hμ _ _ _ h₁) (hI _ _ _ hs hG h₁) rfl
      refine ⟨a :: as, s', ?_, hfin'⟩
      rw [run, if_pos hG]
      exact Option.bind_eq_some_iff.2 ⟨s₁, h₁, hrun⟩

end Measure

end Transition
