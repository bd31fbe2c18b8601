import Mathlib.Data.Finset.Card
import Mathlib.Data.Nat.ModEq
import Mathlib.Logic.Function.Basic
import Mathlib.Order.Interval.Finset.Nat
import Mathlib.Tactic.Common

/-!
# NanoEngine.Lib.Probing — linear probing in a table whose places are claimed once

A place of the table is free or claimed by a key.  A key is looked for at its home and at the places behind it.

* `Passed home claimed k j`: the first `j` places of `k` are claimed by other keys.
* `Claims home claimed`: every claimed place was reached over places of other keys; `Claims.claim` keeps it.
* `Claims.unique`: a key has one place.
* `Passed.lt_card`: a key passes fewer places than there are keys.
-/

namespace Probing

variable {K : Type*} {n : ℕ}

/-- The `j`-th place of `k` in a table of `n` places. -/
def place (n : ℕ) (home : K → ℕ) (k : K) (j : ℕ) : ℕ := (home k + j) % n

/-- The first `j` places of `k` are claimed by other keys. -/
def Passed (n : ℕ) (home : K → ℕ) (claimed : ℕ → Option K) (k : K) (j : ℕ) : Prop :=
  ∀ i < j, ∃ k' ≠ k, claimed (place n home k i) = some k'

/-- Every key was put at the first place that was free. -/
def Claims (n : ℕ) (home : K → ℕ) (claimed : ℕ → Option K) : Prop :=
  ∀ b k, claimed b = some k → ∃ j, b = place n home k j ∧ Passed n home claimed k j

variable {home : K → ℕ} {claimed : ℕ → Option K} {k k' : K} {b b' j : ℕ}

theorem Claims.empty : Claims n home fun _ => none := fun _ _ h => nomatch h

theorem Passed.zero : Passed n home claimed k 0 := fun _ hi => absurd hi (Nat.not_lt_zero _)

theorem Passed.mono (h : Passed n home claimed k j) {i : ℕ} (hi : i ≤ j) : Passed n home claimed k i :=
  fun m hm => h m (Nat.lt_of_lt_of_le hm hi)

theorem Passed.succ (h : Passed n home claimed k j) (hne : k' ≠ k) (hb : claimed (place n home k j) = some k') :
    Passed n home claimed k (j + 1) := by
  intro i hi
  rcases Nat.lt_succ_iff_lt_or_eq.1 hi with hlt | rfl
  · exact h i hlt
  · exact ⟨k', hne, hb⟩

/-- A place that is claimed later was not passed. -/
theorem Passed.claim (h : Passed n home claimed k j) (hb : claimed b = none) :
    Passed n home (Function.update claimed b (some k')) k j := by
  intro i hi
  obtain ⟨k'', hne, hi⟩ := h i hi
  have hib : place n home k i ≠ b := by
    rintro rfl
    rw [hb] at hi
    cases hi
  exact ⟨k'', hne, (Function.update_of_ne hib _ _).trans hi⟩

/-- A key claims the first free place that it comes to. -/
theorem Claims.claim (h : Claims n home claimed) (hb : claimed (place n home k j) = none)
    (hpassed : Passed n home claimed k j) : Claims n home (Function.update claimed (place n home k j) (some k)) := by
  intro b k' hk'
  by_cases heq : b = place n home k j
  · subst heq
    rw [Function.update_self] at hk'
    cases hk'
    exact ⟨j, rfl, hpassed.claim hb⟩
  · rw [Function.update_of_ne heq] at hk'
    obtain ⟨i, rfl, hi⟩ := h b k' hk'
    exact ⟨i, rfl, hi.claim hb⟩

/-- **A key has one place.** -/
theorem Claims.unique (h : Claims n home claimed) (hb : claimed b = some k) (hb' : claimed b' = some k) : b = b' := by
  obtain ⟨j, rfl, hj⟩ := h b k hb
  obtain ⟨j', rfl, hj'⟩ := h b' k hb'
  -- the place that comes first would have been passed, though the key is there
  have hle : ∀ {i i' : ℕ}, claimed (place n home k i) = some k → Passed n home claimed k i' → i' ≤ i := by
    intro i i' hi hi'
    by_contra hlt
    obtain ⟨k', hne, hk'⟩ := hi' i (by omega)
    rw [hi] at hk'
    cases hk'
    exact hne rfl
  rw [Nat.le_antisymm (hle hb' hj) (hle hb hj')]

/-- **A key passes fewer places than there are keys.** -/
theorem Passed.lt_card [DecidableEq K] (hpassed : Passed n home claimed k j) (h : Claims n home claimed) {S : Finset K}
    (hS : ∀ b k', claimed b = some k' → k' ∈ S) (hk : k ∈ S) (hn : S.card ≤ n) : j < S.card := by
  by_contra hle
  -- the first `S.card` places are different and hold different keys, none of which is `k`
  have hpassed' := hpassed.mono (Nat.le_of_not_lt hle)
  have : Nonempty K := ⟨k⟩
  choose! f hne hf using hpassed'
  have hinj : Set.InjOn f (Finset.range S.card : Set ℕ) := by
    intro i hi i' hi' heq
    have hi := Finset.mem_range.1 (Finset.mem_coe.1 hi)
    have hi' := Finset.mem_range.1 (Finset.mem_coe.1 hi')
    have hplace : (home k + i) % n = (home k + i') % n := h.unique (hf i hi) (heq ▸ hf i' hi')
    have hmod : i % n = i' % n := Nat.ModEq.add_left_cancel' (home k) hplace
    rwa [Nat.mod_eq_of_lt (Nat.lt_of_lt_of_le hi hn), Nat.mod_eq_of_lt (Nat.lt_of_lt_of_le hi' hn)] at hmod
  have hsub : ∀ i ∈ Finset.range S.card, f i ∈ S.erase k := fun i hi =>
    Finset.mem_erase.2 ⟨hne i (Finset.mem_range.1 hi), hS _ _ (hf i (Finset.mem_range.1 hi))⟩
  have hcard := Finset.card_le_card_of_injOn f hsub hinj
  rw [Finset.card_range, Finset.card_erase_of_mem hk] at hcard
  have := Finset.card_pos.2 ⟨k, hk⟩
  omega

end Probing
