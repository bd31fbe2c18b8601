import Mathlib.Data.Finset.Card
import Mathlib.Logic.Function.Basic
import Mathlib.Order.Interval.Finset.Nat
import Mathlib.Tactic.Common

/-!
# NanoEngine.Lib.Tickets — tickets from counters that are read and incremented at once

* `Taken key started ticket counter`: every started participant holds a ticket of the counter of its key.
* `Taken.take`: one more participant takes a ticket.
* `Taken.image_ticket`: the tickets of a key are the numbers below its counter, each held once.
-/

namespace Tickets

variable {ι κ : Type*} [DecidableEq κ]

/-- The participants `started` have taken their tickets, in any order. -/
structure Taken (key : ι → κ) (started : Finset ι) (ticket : ι → ℕ) (counter : κ → ℕ) : Prop where
  card : ∀ k, counter k = (started.filter (key · = k)).card
  lt : ∀ i ∈ started, ticket i < counter (key i)
  inj : ∀ i ∈ started, ∀ j ∈ started, key i = key j → ticket i = ticket j → i = j

namespace Taken

variable {key : ι → κ} {started : Finset ι} {ticket : ι → ℕ} {counter : κ → ℕ} {i : ι} {k : κ}

theorem empty (key : ι → κ) (ticket : ι → ℕ) : Taken key ∅ ticket fun _ => 0 where
  card _ := rfl
  lt _ h := absurd h (Finset.notMem_empty _)
  inj _ h := absurd h (Finset.notMem_empty _)

/-- A participant takes the number that it reads. -/
theorem take [DecidableEq ι] (h : Taken key started ticket counter) (hi : i ∉ started) :
    Taken key (insert i started) (Function.update ticket i (counter (key i)))
      (Function.update counter (key i) (counter (key i) + 1)) := by
  have hold : ∀ j ∈ started, j ≠ i := fun j hj heq => hi (heq ▸ hj)
  -- the counts, the bound, and that no two tickets of a key are equal
  refine ⟨fun k => ?_, fun j hj => ?_, fun j hj l hl hkey hticket => ?_⟩
  · rw [Finset.filter_insert]
    by_cases hk : key i = k
    · subst hk
      rw [Function.update_self, if_pos rfl,
        Finset.card_insert_of_notMem fun hmem => hi (Finset.mem_filter.1 hmem).1, h.card]
    · rw [Function.update_of_ne (Ne.symm hk), if_neg hk, h.card]
  · rcases Finset.mem_insert.1 hj with rfl | hj
    · rw [Function.update_self, Function.update_self]
      exact Nat.lt_succ_self _
    · rw [Function.update_of_ne (hold j hj)]
      have hlt := h.lt j hj
      by_cases hk : key j = key i
      · rw [hk, Function.update_self]
        rw [hk] at hlt
        exact Nat.lt_succ_of_lt hlt
      · rwa [Function.update_of_ne hk]
  · -- an old ticket is below the counter that the new one was read from
    have hne : ∀ j ∈ started, key j = key i → ticket j ≠ counter (key i) := by
      intro j hj hk heq
      have hlt := h.lt j hj
      rw [hk, heq] at hlt
      exact Nat.lt_irrefl _ hlt
    rcases Finset.mem_insert.1 hj with hji | hj'
    · rcases Finset.mem_insert.1 hl with hli | hl'
      · rw [hji, hli]
      · rw [hji] at hkey hticket
        rw [Function.update_self, Function.update_of_ne (hold l hl')] at hticket
        exact absurd hticket.symm (hne l hl' hkey.symm)
    · rcases Finset.mem_insert.1 hl with hli | hl'
      · rw [hli] at hkey hticket
        rw [Function.update_self, Function.update_of_ne (hold j hj')] at hticket
        exact absurd hticket (hne j hj' hkey)
      · rw [Function.update_of_ne (hold j hj'), Function.update_of_ne (hold l hl')] at hticket
        exact h.inj j hj' l hl' hkey hticket

theorem injOn_ticket (h : Taken key started ticket counter) (k : κ) :
    Set.InjOn ticket (started.filter (key · = k)) := by
  intro i hi j hj hij
  obtain ⟨hi, hki⟩ := Finset.mem_filter.1 (Finset.mem_coe.1 hi)
  obtain ⟨hj, hkj⟩ := Finset.mem_filter.1 (Finset.mem_coe.1 hj)
  exact h.inj i hi j hj (hki.trans hkj.symm) hij

/-- **The tickets of a key are the numbers below its counter.** -/
theorem image_ticket (h : Taken key started ticket counter) (k : κ) :
    (started.filter (key · = k)).image ticket = Finset.range (counter k) := by
  refine Finset.eq_of_subset_of_card_le (fun n hn => ?_) ?_
  · obtain ⟨i, hi, rfl⟩ := Finset.mem_image.1 hn
    obtain ⟨hstarted, rfl⟩ := Finset.mem_filter.1 hi
    exact Finset.mem_range.2 (h.lt i hstarted)
  · rw [Finset.card_range, Finset.card_image_of_injOn (h.injOn_ticket k), h.card]

theorem exists_ticket (h : Taken key started ticket counter) {n : ℕ} (hn : n < counter k) :
    ∃ i ∈ started, key i = k ∧ ticket i = n := by
  have hmem : n ∈ (started.filter (key · = k)).image ticket := by
    rw [h.image_ticket]
    exact Finset.mem_range.2 hn
  obtain ⟨i, hi, hin⟩ := Finset.mem_image.1 hmem
  obtain ⟨hi, hk⟩ := Finset.mem_filter.1 hi
  exact ⟨i, hi, hk, hin⟩

/-- As many tickets are out of the first `m` as the counter goes beyond them. -/
theorem card_late (h : Taken key started ticket counter) (k : κ) (m : ℕ) :
    ((started.filter (key · = k)).filter (m ≤ ticket ·)).card = counter k - m := by
  have himage : ((started.filter (key · = k)).filter (m ≤ ticket ·)).image ticket =
      (Finset.range (counter k)).filter (m ≤ ·) := by
    rw [← h.image_ticket k, Finset.filter_image]
  have hinj : Set.InjOn ticket ((started.filter (key · = k)).filter (m ≤ ticket ·)) :=
    (h.injOn_ticket k).mono (Finset.coe_subset.2 (Finset.filter_subset _ _))
  rw [← Finset.card_image_of_injOn hinj, himage]
  have hsplit : (Finset.range (counter k)).filter (m ≤ ·) = Finset.Ico m (counter k) := by
    ext n
    simp only [Finset.mem_filter, Finset.mem_range, Finset.mem_Ico]
    exact and_comm
  rw [hsplit, Nat.card_Ico]

end Taken

end Tickets
