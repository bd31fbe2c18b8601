import NanoEngine.Cache.Counted
import NanoEngine.Cache.State

/-!
# NanoEngine.Cache.Release — what the release of a sequence does to a pool

* `removeSeq_*`: the fields of a pool after `remove_seq`; the references of a block drop by its occurrences in the
  table.
* `releaseSeq_*`: `CacheState::release_seq` in one line for each kind of pool.
-/

namespace NanoEngine

namespace BlockPool

variable (p : BlockPool) (seqId : ℕ)

@[simp] theorem releaseOne_seqBlocks (b : ℕ) : (p.releaseOne b).seqBlocks = p.seqBlocks := by
  unfold releaseOne
  split
  · dsimp only
    split <;> rfl
  · rfl

@[simp] theorem releaseOne_hashToBlockId (b : ℕ) : (p.releaseOne b).hashToBlockId = p.hashToBlockId := by
  unfold releaseOne
  split
  · dsimp only
    split <;> rfl
  · rfl

/-- One reference less of `b`; the count of `Nat` stops at zero, as `saturating_sub` does. -/
theorem releaseOne_refCount {b c : ℕ} (hc : c < p.numBlocks) :
    ((p.releaseOne b).blocks c).refCount = (p.blocks c).refCount - [b].count c := by
  by_cases hcb : c = b
  · subst hcb
    unfold releaseOne
    rw [if_pos hc]
    dsimp only
    split <;> simp [setBlock]
  · rw [releaseOne_blocks_of_ne p hcb, List.count_singleton, if_neg (by simpa using Ne.symm hcb)]
    rfl

/-- A block is freed with its last reference. -/
theorem mem_freeBlocks_releaseOne {b c : ℕ} : c ∈ (p.releaseOne b).freeBlocks ↔
    c ∈ p.freeBlocks ∨ c = b ∧ b < p.numBlocks ∧ (p.blocks b).refCount ≤ 1 := by
  unfold releaseOne
  split
  case isFalse hlt => simp [hlt]
  case isTrue hlt =>
    dsimp only
    split
    case isTrue hlast =>
      have hle : (p.blocks b).refCount ≤ 1 := by omega
      simp [setBlock, hlt, hle, or_comm]
    case isFalse hlast =>
      refine ⟨.inl, fun h => h.elim id ?_⟩
      rintro ⟨rfl, -, hle⟩
      by_contra hc
      exact hlast ⟨by omega, hc⟩

/-! ### A whole table -/

variable (blocks : List ℕ)

/-- A block becomes free when the list has at least as many of it as there are references. -/
theorem mem_freeBlocks_foldl_releaseOne {c : ℕ} : c ∈ (blocks.foldl releaseOne p).freeBlocks ↔
    c ∈ p.freeBlocks ∨ c ∈ blocks ∧ c < p.numBlocks ∧ (p.blocks c).refCount ≤ blocks.count c := by
  induction blocks generalizing p with
  | nil => simp
  | cons b blocks ih =>
    rw [List.foldl_cons, ih, mem_freeBlocks_releaseOne, releaseOne_numBlocks]
    by_cases hlt : c < p.numBlocks
    · rw [releaseOne_refCount p hlt, List.mem_cons, Counting.count_cons_eq b c blocks]
      by_cases hcb : c = b
      · subst hcb
        have hcount : c ∉ blocks → blocks.count c = 0 := List.count_eq_zero.2
        by_cases hc : c ∈ blocks
        · have hlast : (p.blocks c).refCount ≤ 1 ∨ (p.blocks c).refCount - 1 ≤ blocks.count c ↔
              (p.blocks c).refCount ≤ blocks.count c + 1 := by omega
          simp only [hc, hlt, BEq.rfl, List.count_singleton, true_and, if_true, true_or, or_assoc, hlast]
        · simp [hc, hlt, hcount hc]
      · have hzero : [b].count c = 0 := by simp [Ne.symm hcb]
        simp [hcb, hlt, hzero]
    · constructor
      · rintro ((hc | ⟨rfl, hb, -⟩) | ⟨-, hc, -⟩)
        · exact .inl hc
        · exact absurd hb hlt
        · exact absurd hc hlt
      · rintro (hc | ⟨-, hc, -⟩)
        · exact .inl (.inl hc)
        · exact absurd hc hlt

theorem foldl_releaseOne_seqBlocks : (blocks.foldl releaseOne p).seqBlocks = p.seqBlocks := by
  induction blocks generalizing p with
  | nil => rfl
  | cons b blocks ih => exact (ih _).trans (releaseOne_seqBlocks p b)

theorem foldl_releaseOne_numBlocks : (blocks.foldl releaseOne p).numBlocks = p.numBlocks := by
  induction blocks generalizing p with
  | nil => rfl
  | cons b blocks ih => exact (ih _).trans (releaseOne_numBlocks p b)

theorem foldl_releaseOne_hashToBlockId : (blocks.foldl releaseOne p).hashToBlockId = p.hashToBlockId := by
  induction blocks generalizing p with
  | nil => rfl
  | cons b blocks ih => exact (ih _).trans (releaseOne_hashToBlockId p b)

/-- A released block keeps its state and its hash, so a later lookup can still hit it. -/
theorem foldl_releaseOne_meta (c : ℕ) : ((blocks.foldl releaseOne p).blocks c).state = (p.blocks c).state ∧
    ((blocks.foldl releaseOne p).blocks c).hash = (p.blocks c).hash ∧
    ((blocks.foldl releaseOne p).blocks c).tokenIds = (p.blocks c).tokenIds := by
  induction blocks generalizing p with
  | nil => exact ⟨rfl, rfl, rfl⟩
  | cons b blocks ih =>
    obtain ⟨hstate, hhash, htokens⟩ := ih (p.releaseOne b)
    obtain ⟨hstate', hhash', htokens'⟩ := releaseOne_meta p b c
    exact ⟨hstate.trans hstate', hhash.trans hhash', htokens.trans htokens'⟩

/-- Every occurrence in the list drops one reference. -/
theorem foldl_releaseOne_refCount {c : ℕ} (hc : c < p.numBlocks) :
    ((blocks.foldl releaseOne p).blocks c).refCount = (p.blocks c).refCount - blocks.count c := by
  induction blocks generalizing p with
  | nil => simp
  | cons b blocks ih =>
    rw [List.foldl_cons, ih _ (by rwa [releaseOne_numBlocks]), releaseOne_refCount p hc,
      Counting.count_cons_eq b c blocks]
    omega

theorem foldl_releaseOne_freeBlocks : p.freeBlocks ⊆ (blocks.foldl releaseOne p).freeBlocks := by
  induction blocks generalizing p with
  | nil => exact fun _ hc => hc
  | cons b blocks ih => exact fun _ hc => ih _ (releaseOne_freeBlocks_subset p b hc)

theorem length_freeBlocks_foldl_releaseOne : p.freeBlocks.length ≤ (blocks.foldl releaseOne p).freeBlocks.length := by
  induction blocks generalizing p with
  | nil => exact le_rfl
  | cons b blocks ih =>
    refine le_trans ?_ (ih (p.releaseOne b))
    unfold releaseOne
    split
    · dsimp only
      split <;> simp [setBlock]
    · exact le_rfl

/-- `remove_seq` is the release of the table's blocks, one after another. -/
theorem removeSeq_eq (p : BlockPool) (seqId : ℕ) : p.removeSeq seqId =
    (p.table seqId).foldl releaseOne { p with seqBlocks := Function.update p.seqBlocks seqId none } := by
  unfold removeSeq table
  split
  case h_1 hnone =>
    rw [hnone]
    show p = { p with seqBlocks := Function.update p.seqBlocks seqId none }
    rw [← hnone, Function.update_eq_self]
  case h_2 blocks hblocks =>
    rw [hblocks]
    rfl

theorem removeSeq_seqBlocks : (p.removeSeq seqId).seqBlocks = Function.update p.seqBlocks seqId none := by
  rw [removeSeq_eq, foldl_releaseOne_seqBlocks]

theorem removeSeq_numBlocks : (p.removeSeq seqId).numBlocks = p.numBlocks := by
  rw [removeSeq_eq, foldl_releaseOne_numBlocks]

theorem removeSeq_hashToBlockId : (p.removeSeq seqId).hashToBlockId = p.hashToBlockId := by
  rw [removeSeq_eq, foldl_releaseOne_hashToBlockId]

theorem removeSeq_state (b : ℕ) : ((p.removeSeq seqId).blocks b).state = (p.blocks b).state := by
  rw [removeSeq_eq]
  exact (foldl_releaseOne_meta _ _ b).1

/-- What other tables reference stays referenced. -/
theorem removeSeq_refCount {b : ℕ} (hb : b < p.numBlocks) :
    ((p.removeSeq seqId).blocks b).refCount = (p.blocks b).refCount - (p.table seqId).count b := by
  rw [removeSeq_eq, foldl_releaseOne_refCount]
  exact hb

/-- The blocks that `remove_seq` frees are those whose references are all the sequence's. -/
theorem mem_freeBlocks_removeSeq {b : ℕ} : b ∈ (p.removeSeq seqId).freeBlocks ↔
    b ∈ p.freeBlocks ∨ b ∈ p.table seqId ∧ b < p.numBlocks ∧
      (p.blocks b).refCount ≤ (p.table seqId).count b := by
  rw [removeSeq_eq, mem_freeBlocks_foldl_releaseOne]

theorem length_freeBlocks_removeSeq : p.freeBlocks.length ≤ (p.removeSeq seqId).freeBlocks.length := by
  rw [removeSeq_eq]
  exact length_freeBlocks_foldl_releaseOne { p with seqBlocks := Function.update p.seqBlocks seqId none } _

theorem removeSeq_of_none (h : p.seqBlocks seqId = none) : p.removeSeq seqId = p := by
  unfold removeSeq
  rw [h]

/-- A second removal finds no table. -/
theorem removeSeq_removeSeq : (p.removeSeq seqId).removeSeq seqId = p.removeSeq seqId :=
  removeSeq_of_none _ seqId (by rw [removeSeq_seqBlocks, Function.update_self])

end BlockPool

namespace CacheState

variable (c : CacheState) (seqId group : ℕ)

/-- The HBM pool of the rank that the sequence is assigned to. -/
def assignedFlat : Option ℕ := (c.seqAssignment seqId).map (fun a => a.1 * group + a.2)

/-- Only the HBM pool of the rank that the sequence was assigned to gives blocks back. -/
theorem releaseSeq_hbmPools (flat : ℕ) : (c.releaseSeq seqId group).hbmPools flat =
    if c.assignedFlat seqId group = some flat then (c.hbmPools flat).removeSeq seqId else c.hbmPools flat := by
  unfold releaseSeq assignedFlat
  cases hpending : c.pendingHostSwaps seqId <;> cases hassign : c.seqAssignment seqId
  all_goals simp only [setHbmPool, setHostPool, hassign, Option.map_none, Option.map_some,
    Option.some.injEq, reduceCtorEq,
    if_false, Function.update_apply, eq_comm (a := flat)]
  all_goals split <;> rename_i hflat <;> simp only [hflat]

/-- Every host pool does. -/
theorem releaseSeq_hostPools (flat : ℕ) :
    (c.releaseSeq seqId group).hostPools flat = (c.hostPools flat).removeSeq seqId := by
  unfold releaseSeq
  cases hpending : c.pendingHostSwaps seqId with
  | none => cases hassign : c.seqAssignment seqId <;> simp only [setHbmPool, hassign]
  | some pending =>
    have hpool : ∀ f, (Function.update c.hostPools f ((c.hostPools f).removeSeq seqId) flat).removeSeq seqId =
        (c.hostPools flat).removeSeq seqId := by
      intro f
      rw [Function.update_apply]
      split
      case isTrue hflat => rw [hflat, BlockPool.removeSeq_removeSeq]
      case isFalse => rfl
    cases hassign : c.seqAssignment seqId
    all_goals
      simp only [setHbmPool, setHostPool, hassign]
      exact hpool _

/-- The sequence has no rank afterwards. -/
theorem releaseSeq_seqAssignment :
    (c.releaseSeq seqId group).seqAssignment = Function.update c.seqAssignment seqId none := by
  unfold releaseSeq
  cases hpending : c.pendingHostSwaps seqId <;> cases hassign : c.seqAssignment seqId
  all_goals simp only [setHbmPool, setHostPool, hassign]
  all_goals rw [← hassign, Function.update_eq_self]

/-- The swap that the sequence waits for is forgotten; the queued tasks are not. -/
theorem releaseSeq_pending :
    (c.releaseSeq seqId group).pendingHostSwaps = Function.update c.pendingHostSwaps seqId none ∧
    (c.releaseSeq seqId group).pendingSwapOutTasks = c.pendingSwapOutTasks ∧
    (c.releaseSeq seqId group).pendingSwapInTasks = c.pendingSwapInTasks := by
  unfold releaseSeq
  cases hpending : c.pendingHostSwaps seqId <;> cases hassign : c.seqAssignment seqId
  all_goals simp only [setHbmPool, setHostPool, hassign, and_self, and_true]
  all_goals rw [← hpending, Function.update_eq_self]

end CacheState

end NanoEngine
