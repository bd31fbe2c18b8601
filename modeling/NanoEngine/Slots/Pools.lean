import Mathlib.Data.Set.Card
import NanoEngine.Lib.Counting
import NanoEngine.Cache.State

/-!
# NanoEngine.Slots.Pools — slots and compressed pages have one holder

`rust/src/cache/table/slot/pool.rs` and the page loops of `cache/coordinator.rs`.

* `SlotPool.Sound`: no slot has two holders or is held and free, and held and free slots add up.
* `CompressedPool.Pages n`: every page below `n` is free once or held once, no other page occurs.
-/

namespace NanoEngine

open Counting

namespace SlotPool

/-- The sequences that hold a slot. -/
def holders (p : SlotPool) : Set ℕ := {id | p.seqSlots id ≠ none}

structure Sound (p : SlotPool) : Prop where
  finite : p.holders.Finite
  inj : ∀ {a b slot}, p.seqSlots a = some slot → p.seqSlots b = some slot → a = b
  held_lt : ∀ {a slot}, p.seqSlots a = some slot → slot < p.numSlots
  held_not_free : ∀ {a slot}, p.seqSlots a = some slot → slot ∉ p.freeSlots
  free_nodup : p.freeSlots.Nodup
  free_lt : ∀ slot ∈ p.freeSlots, slot < p.numSlots
  total : p.freeSlots.length + p.holders.ncard = p.numSlots

theorem sound_new (numSlots : ℤ) : (SlotPool.new numSlots).Sound where
  finite := by simp [SlotPool.new, holders]
  inj h := by cases h
  held_lt h := by cases h
  held_not_free h := by cases h
  free_nodup := List.nodup_range
  free_lt slot h := List.mem_range.1 h
  total := by simp [SlotPool.new, holders]

theorem holders_update_some (p : SlotPool) (seqId slot : ℕ) :
    {id | Function.update p.seqSlots seqId (some slot) id ≠ none} = insert seqId p.holders := by
  ext id
  by_cases hid : id = seqId
  · simp [hid]
  · simp [holders, hid]

theorem holders_update_none (p : SlotPool) (seqId : ℕ) :
    {id | Function.update p.seqSlots seqId none id ≠ none} = p.holders \ {seqId} := by
  ext id
  by_cases hid : id = seqId
  · simp [hid]
  · simp [holders, hid]

/-- A slot handed out was free, and nothing else changes. -/
theorem Sound.ensure {p : SlotPool} (hp : p.Sound) (seqId : ℕ) : (p.ensure seqId).2.Sound := by
  unfold SlotPool.ensure
  split
  case h_1 => exact hp
  case h_2 hnone =>
    split
    case h_1 => exact hp
    case h_2 slot free hfree =>
      have hslot : slot ∈ p.freeSlots := hfree ▸ List.mem_cons_self
      have hsub : ∀ n ∈ free, n ∈ p.freeSlots := fun n hn => hfree ▸ List.mem_cons_of_mem slot hn
      have hnodup := List.nodup_cons.1 (hfree ▸ hp.free_nodup)
      have hcases : ∀ {a n}, Function.update p.seqSlots seqId (some slot) a = some n →
          a = seqId ∧ n = slot ∨ a ≠ seqId ∧ p.seqSlots a = some n := by
        intro a n h
        by_cases ha : a = seqId
        · subst ha
          rw [Function.update_self] at h
          exact .inl ⟨rfl, (Option.some.inj h).symm⟩
        · rw [Function.update_of_ne ha] at h
          exact .inr ⟨ha, h⟩
      refine ⟨?_, ?_, ?_, ?_, hnodup.2, fun n hn => hp.free_lt n (hsub n hn), ?_⟩
      · show {id | Function.update p.seqSlots seqId (some slot) id ≠ none}.Finite
        rw [holders_update_some]
        exact hp.finite.insert seqId
      · intro a b n ha hb
        rcases hcases ha with ⟨rfl, rfl⟩ | ⟨-, ha'⟩ <;> rcases hcases hb with ⟨rfl, h⟩ | ⟨-, hb'⟩
        · rfl
        · exact absurd hslot (hp.held_not_free hb')
        · exact absurd (h ▸ hslot) (hp.held_not_free ha')
        · exact hp.inj ha' hb'
      · intro a n ha
        rcases hcases ha with ⟨-, rfl⟩ | ⟨-, ha'⟩
        · exact hp.free_lt n hslot
        · exact hp.held_lt ha'
      · intro a n ha hn
        rcases hcases ha with ⟨-, rfl⟩ | ⟨-, ha'⟩
        · exact hnodup.1 hn
        · exact hp.held_not_free ha' (hsub n hn)
      · have htotal := hp.total
        rw [hfree, List.length_cons] at htotal
        have hnew : seqId ∉ p.holders := fun h => h hnone
        show free.length + {id | Function.update p.seqSlots seqId (some slot) id ≠ none}.ncard = p.numSlots
        rw [holders_update_some, Set.ncard_insert_of_notMem hnew hp.finite]
        omega

/-- A slot given back is free again. -/
theorem Sound.remove {p : SlotPool} (hp : p.Sound) (seqId : ℕ) : (p.remove seqId).Sound := by
  unfold SlotPool.remove
  split
  case h_1 => exact hp
  case h_2 slot hslot =>
    unfold releaseSlot
    rw [if_neg (hp.held_not_free hslot)]
    have hcases : ∀ {a n}, Function.update p.seqSlots seqId none a = some n →
      a ≠ seqId ∧ p.seqSlots a = some n := by
      intro a n h
      by_cases ha : a = seqId
      · rw [ha, Function.update_self] at h
        cases h
      · rw [Function.update_of_ne ha] at h
        exact ⟨ha, h⟩
    -- the holders lose one id and the free list gains its slot
    refine ⟨?_, ?_, ?_, ?_, List.nodup_cons.2 ⟨hp.held_not_free hslot, hp.free_nodup⟩, ?_, ?_⟩
    · show {id | Function.update p.seqSlots seqId none id ≠ none}.Finite
      rw [holders_update_none]
      exact hp.finite.sdiff
    · intro a b n ha hb
      exact hp.inj (hcases ha).2 (hcases hb).2
    · intro a n ha
      exact hp.held_lt (hcases ha).2
    · intro a n ha hn
      obtain ⟨hne, ha'⟩ := hcases ha
      rcases List.mem_cons.1 hn with rfl | hn
      · exact hne (hp.inj ha' hslot)
      · exact hp.held_not_free ha' hn
    · intro n hn
      rcases List.mem_cons.1 hn with rfl | hn
      · exact hp.held_lt hslot
      · exact hp.free_lt n hn
    · have htotal := hp.total
      have hmem : seqId ∈ p.holders := fun h => by
        rw [hslot] at h
        cases h
      have hcard := Set.ncard_sdiff_singleton_add_one hmem hp.finite
      show p.freeSlots.length + 1 + {id | Function.update p.seqSlots seqId none id ≠ none}.ncard = p.numSlots
      rw [holders_update_none]
      omega

@[simp] theorem remove_numSlots (p : SlotPool) (seqId : ℕ) : (p.remove seqId).numSlots = p.numSlots := by
  unfold SlotPool.remove releaseSlot
  split
  case h_1 => rfl
  case h_2 => split <;> rfl

@[simp] theorem ensure_numSlots (p : SlotPool) (seqId : ℕ) : (p.ensure seqId).2.numSlots = p.numSlots := by
  unfold SlotPool.ensure
  split
  case h_1 => rfl
  case h_2 => split <;> rfl

/-- After `remove` the sequence holds no slot, the others hold theirs. -/
theorem remove_seqSlots (p : SlotPool) (seqId : ℕ) :
    (p.remove seqId).seqSlots = Function.update p.seqSlots seqId none := by
  unfold SlotPool.remove releaseSlot
  split
  case h_1 h => rw [← h, Function.update_eq_self]
  case h_2 => split <;> rfl

end SlotPool

namespace CompressedPool

/-- Every page below `n` is free once or held once, and no other page occurs. -/
structure Pages (n : ℕ) (p : CompressedPool) : Prop where
  finite : {id | p.seqPages id ≠ none}.Finite
  count : ∀ page, p.freePages.count page + familyCount p.seqPages page = if page < n then 1 else 0

theorem pages_ofSpec {spec : CompressedSpec} {p : CompressedPool} (h : ofSpec spec = some p) :
    p.Pages p.freePages.length := by
  unfold ofSpec at h
  split at h
  case isFalse => cases h
  case isTrue =>
    cases h
    refine ⟨by simp, fun page => ?_⟩
    rw [familyCount_none, Nat.add_zero, List.length_range]
    split
    case isTrue hlt => exact List.count_eq_one_of_mem List.nodup_range (List.mem_range.2 hlt)
    case isFalse hlt => exact List.count_eq_zero.2 fun hmem => hlt (List.mem_range.1 hmem)

/-- The page loop moves free pages into the table, also when they run out. -/
theorem Pages.takePages {n : ℕ} {p : CompressedPool} (hp : p.Pages n) (seqId k : ℕ) :
    (CompressedPool.takePages seqId k p).2.Pages n := by
  induction k generalizing p with
  | zero => exact hp
  | succ k ih =>
    unfold CompressedPool.takePages
    split
    case h_1 => exact hp
    case h_2 page free hfree =>
      refine ih ⟨finite_update hp.finite seqId _, fun x => ?_⟩
      have hcount := hp.count x
      have hupdate := familyCount_update hp.finite seqId (some ((p.seqPages seqId).getD [] ++ [page])) x
      rw [hfree, count_cons_eq] at hcount
      rw [Option.getD_some, List.count_append] at hupdate
      show free.count x + familyCount (Function.update p.seqPages seqId _) x = _
      omega

theorem Pages.ensurePages {n : ℕ} {p : CompressedPool} (hp : p.Pages n) (seqId : ℕ) (neededTokens : ℤ) :
    (p.ensurePages seqId neededTokens).2.Pages n := by
  have hentry : ({ p with seqPages := Function.update p.seqPages seqId (some ((p.seqPages seqId).getD [])) } :
      CompressedPool).Pages n := by
    refine ⟨finite_update hp.finite seqId _, fun x => ?_⟩
    have hcount := hp.count x
    have hupdate := familyCount_update hp.finite seqId (some ((p.seqPages seqId).getD [])) x
    rw [Option.getD_some] at hupdate
    show p.freePages.count x + familyCount (Function.update p.seqPages seqId _) x = _
    omega
  have htake := hentry.takePages seqId (p.pagesNeededForTokens neededTokens - ((p.seqPages seqId).getD []).length)
  unfold CompressedPool.ensurePages
  dsimp only
  split
  case h_1 p' h =>
    rw [h] at htake
    exact htake
  case h_2 p' h =>
    rw [h] at htake
    exact htake

/-- The pages of a removed sequence are free again. -/
theorem Pages.removeSeq {n : ℕ} {p : CompressedPool} (hp : p.Pages n) (seqId : ℕ) :
    (p.removeSeq seqId).Pages n := by
  unfold CompressedPool.removeSeq
  split
  case h_1 => exact hp
  case h_2 pages hpages =>
    refine ⟨finite_update hp.finite seqId none, fun x => ?_⟩
    have hcount := hp.count x
    have hupdate := familyCount_update hp.finite seqId none x
    rw [hpages, Option.getD_some] at hupdate
    show (pages.reverse ++ p.freePages).count x + familyCount (Function.update p.seqPages seqId none) x = _
    rw [List.count_append, List.count_reverse]
    rw [Option.getD_none, List.count_nil] at hupdate
    omega

/-- Free and held pages are a partition of the pages below `n`. -/
structure Partition (n : ℕ) (p : CompressedPool) : Prop where
  free_nodup : p.freePages.Nodup
  held_nodup : ∀ a pages, p.seqPages a = some pages → pages.Nodup
  held_once : ∀ a b pages pages', a ≠ b → p.seqPages a = some pages → p.seqPages b = some pages' →
    ∀ page ∈ pages, page ∉ pages'
  held_not_free : ∀ a pages, p.seqPages a = some pages → ∀ page ∈ pages, page ∉ p.freePages
  covers : ∀ page, page < n ↔ page ∈ p.freePages ∨ ∃ a pages, p.seqPages a = some pages ∧ page ∈ pages

theorem Pages.partition {n : ℕ} {p : CompressedPool} (hp : p.Pages n) : p.Partition n := by
  -- the count gives every page once, and the parts of the partition follow from it
  have hone : ∀ page, p.freePages.count page + familyCount p.seqPages page ≤ 1 := by
    intro page
    rw [hp.count]
    split <;> omega
  have hheld : ∀ {a pages}, p.seqPages a = some pages →
    ∀ page, pages.count page ≤ familyCount p.seqPages page := by
    intro a pages ha page
    have hle := count_le_familyCount hp.finite a page
    rwa [ha] at hle
  refine ⟨?_, ?_, ?_, ?_, ?_⟩
  · refine List.nodup_iff_count_le_one.2 fun page => ?_
    have := hone page
    omega
  · intro a pages ha
    refine List.nodup_iff_count_le_one.2 fun page => ?_
    have := hone page
    have := hheld ha page
    omega
  · intro a b pages pages' hab ha hb page hmem hmem'
    have hle := count_add_count_le_familyCount hp.finite hab page
    rw [ha, hb, Option.getD_some, Option.getD_some] at hle
    have h₁ := List.count_pos_iff.2 hmem
    have h₂ := List.count_pos_iff.2 hmem'
    have := hone page
    omega
  · intro a pages ha page hmem hfree
    have h₁ := hheld ha page
    have h₂ := List.count_pos_iff.2 hmem
    have h₃ := List.count_pos_iff.2 hfree
    have := hone page
    omega
  · intro page
    have hcount := hp.count page
    constructor
    · intro hlt
      rw [if_pos hlt] at hcount
      by_cases hfree : page ∈ p.freePages
      · exact .inl hfree
      · rw [List.count_eq_zero.2 hfree] at hcount
        obtain ⟨a, pages, ha, hmem⟩ := exists_mem_of_familyCount_pos (f := p.seqPages) (a := page) (by omega)
        exact .inr ⟨a, pages, ha, hmem⟩
    · intro h
      by_contra hlt
      rw [if_neg hlt] at hcount
      rcases h with hfree | ⟨a, pages, ha, hmem⟩
      · have := List.count_pos_iff.2 hfree
        omega
      · have h₁ := hheld ha page
        have h₂ := List.count_pos_iff.2 hmem
        omega

end CompressedPool

end NanoEngine
