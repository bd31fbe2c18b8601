import Mathlib
import NanoEngine.Cache.Release
import NanoEngine.Engine.Pools
import NanoEngine.Slots.Sound

/-!
# NanoEngine.Failures.Release — when the release of a sequence is complete

* `ReleaseComplete c c' seqId`: no pool holds anything for the sequence, what only it held is free, and nothing else has
  changed.
* `ReleasesAll`: the sequence has blocks on its own rank only, no block that only it holds has a forgotten reference,
  and no swap task is pending for such a block.
* `release_complete`: in every reachable state a release is complete exactly under `ReleasesAll`.
-/

namespace NanoEngine

open Scheduler Transition

/-! ## One pool -/

namespace BlockPool

/-- The blocks that are in the table of the sequence and in no other. -/
def aloneHeld (p : BlockPool) (seqId : ℕ) : Set ℕ :=
  {b | b ∈ p.table seqId ∧ ∀ id, id ≠ seqId → b ∉ p.table id}

/-- All references of the block are those of the table of the sequence. -/
def LastReferences (p : BlockPool) (seqId b : ℕ) : Prop :=
  b < p.numBlocks ∧ (p.blocks b).refCount = (p.table seqId).count b

/-- From `p` to `p'` the sequence has given back all its blocks. -/
structure Released (p p' : BlockPool) (seqId : ℕ) : Prop where
  nothing : p'.hasSeq seqId = false
  grown : p'.freeBlocks.length = p.freeBlocks.length + (p.aloneHeld seqId).ncard
  others : ∀ id, id ≠ seqId → p'.seqBlocks id = p.seqBlocks id
  retained : ∀ id, id ≠ seqId → ∀ b ∈ p.table id, b ∉ p'.freeBlocks

/-- The blocks that are free in `p'` and were not in `p`. -/
def freed (p p' : BlockPool) : Set ℕ := {b | b ∈ p'.freeBlocks ∧ b ∉ p.freeBlocks}

/-- Tables, references and free blocks are the same; what the blocks hold may differ. -/
structure SameHoldings (p p' : BlockPool) : Prop where
  seqBlocks : p'.seqBlocks = p.seqBlocks
  freeBlocks : p'.freeBlocks = p.freeBlocks
  numBlocks : p'.numBlocks = p.numBlocks
  refCount : ∀ b, (p'.blocks b).refCount = (p.blocks b).refCount

variable {p : BlockPool} {seqId b : ℕ}

theorem finite_aloneHeld (p : BlockPool) (seqId : ℕ) : (p.aloneHeld seqId).Finite :=
  (p.table seqId).toFinset.finite_toSet.subset fun b hb => by simpa using hb.1

theorem Counted.count_add_count_le (hp : p.Counted []) {id : ℕ} (hid : id ≠ seqId) (b : ℕ) :
    (p.table id).count b + (p.table seqId).count b ≤ (p.blocks b).refCount := by
  have hle := Counting.count_add_count_le_familyCount hp.finite_tables hid b
  exact hle.trans ((Nat.le_add_right _ _).trans (hp.refCount_le b))

/-- What a removal frees was in the table of the sequence, with no other reference. -/
theorem Counted.freed_iff (hp : p.Counted []) (b : ℕ) :
    b ∈ (p.removeSeq seqId).freeBlocks ∧ b ∉ p.freeBlocks ↔
    b ∈ p.table seqId ∧ p.LastReferences seqId b := by
  rw [mem_freeBlocks_removeSeq]
  constructor
  · rintro ⟨hb | ⟨hmem, hlt, hle⟩, hfree⟩
    · exact absurd hb hfree
    · have hcount := Counting.count_le_familyCount hp.finite_tables seqId b
      exact ⟨hmem, hlt, hle.antisymm (hcount.trans ((Nat.le_add_right _ _).trans (hp.refCount_le b)))⟩
  · rintro ⟨hmem, hlt, heq⟩
    refine ⟨.inr ⟨hmem, hlt, heq.le⟩, fun hfree => ?_⟩
    exact List.count_eq_zero.1 (hp.notMem_table hfree seqId) hmem

theorem Counted.aloneHeld_of_last (hp : p.Counted []) (hmem : b ∈ p.table seqId) (hlast : p.LastReferences seqId b) :
    b ∈ p.aloneHeld seqId := by
  refine ⟨hmem, fun id hid hother => ?_⟩
  have hle := hp.count_add_count_le hid b
  have hpos := List.count_pos_iff.2 hother
  have hall := hlast.2
  omega

theorem Counted.grown_iff (hp : p.Counted []) :
    (p.removeSeq seqId).freeBlocks.length = p.freeBlocks.length + (p.aloneHeld seqId).ncard ↔
      ∀ b ∈ p.aloneHeld seqId, p.LastReferences seqId b := by
  set freed : Finset ℕ := (p.removeSeq seqId).freeBlocks.toFinset \ p.freeBlocks.toFinset
  have hfreed : ∀ b, b ∈ freed ↔ b ∈ p.table seqId ∧ p.LastReferences seqId b := by
    intro b
    rw [Finset.mem_sdiff, List.mem_toFinset, List.mem_toFinset]
    exact hp.freed_iff b
  have hlength : (p.removeSeq seqId).freeBlocks.length = p.freeBlocks.length + freed.card := by
    have hsub : p.freeBlocks.toFinset ⊆ (p.removeSeq seqId).freeBlocks.toFinset := by
      intro b hb
      rw [List.mem_toFinset] at hb ⊢
      exact (p.mem_freeBlocks_removeSeq seqId).2 (.inl hb)
    have hcard : freed.card + p.freeBlocks.toFinset.card = (p.removeSeq seqId).freeBlocks.toFinset.card :=
      Finset.card_sdiff_add_card_eq_card hsub
    rw [List.toFinset_card_of_nodup hp.free_nodup, List.toFinset_card_of_nodup (hp.removeSeq seqId).free_nodup] at hcard
    omega
  have halone : (freed : Set ℕ) ⊆ p.aloneHeld seqId := fun b hb =>
    hp.aloneHeld_of_last ((hfreed b).1 hb).1 ((hfreed b).1 hb).2
  rw [hlength, Nat.add_left_cancel_iff, ← Set.ncard_coe_finset freed]
  constructor
  · intro hcard b hb
    have heq := Set.eq_of_subset_of_ncard_le halone hcard.ge (p.finite_aloneHeld seqId)
    rw [← heq] at hb
    exact ((hfreed b).1 hb).2
  · intro hlast
    exact congrArg Set.ncard (halone.antisymm fun b hb => (hfreed b).2 ⟨hb.1, hlast b hb⟩)

/-- A removal gives everything back unless a reference has been forgotten. -/
theorem Counted.released_iff (hp : p.Counted []) :
    Released p (p.removeSeq seqId) seqId ↔ ∀ b ∈ p.aloneHeld seqId, p.LastReferences seqId b := by
  rw [← hp.grown_iff]
  refine ⟨fun h => h.grown, fun hgrown => ⟨?_, hgrown, fun id hid => ?_, fun id hid b hb hfree => ?_⟩⟩
  · simp [hasSeq, removeSeq_seqBlocks]
  · rw [removeSeq_seqBlocks, Function.update_of_ne hid]
  · have hzero := (hp.removeSeq seqId).notMem_table hfree id
    unfold table at hzero
    rw [removeSeq_seqBlocks, Function.update_of_ne hid] at hzero
    exact List.count_eq_zero.1 hzero hb

theorem Counted.freed_eq (hp : p.Counted []) (hlast : ∀ b ∈ p.aloneHeld seqId, p.LastReferences seqId b) :
    freed p (p.removeSeq seqId) = p.aloneHeld seqId := by
  ext b
  exact (hp.freed_iff b).trans ⟨fun h => hp.aloneHeld_of_last h.1 h.2, fun h => ⟨h.1, hlast b h⟩⟩

namespace SameHoldings

variable {p' q q' : BlockPool}

theorem refl (p : BlockPool) : SameHoldings p p := ⟨rfl, rfl, rfl, fun _ => rfl⟩

theorem symm (h : SameHoldings p p') : SameHoldings p' p :=
  ⟨h.seqBlocks.symm, h.freeBlocks.symm, h.numBlocks.symm, fun b => (h.refCount b).symm⟩

theorem trans (h : SameHoldings p p') (k : SameHoldings p' q) : SameHoldings p q :=
  ⟨k.seqBlocks.trans h.seqBlocks, k.freeBlocks.trans h.freeBlocks, k.numBlocks.trans h.numBlocks,
    fun b => (k.refCount b).trans (h.refCount b)⟩

theorem table (h : SameHoldings p p') (seqId : ℕ) : p'.table seqId = p.table seqId := by
  unfold BlockPool.table
  rw [h.seqBlocks]

theorem aloneHeld (h : SameHoldings p p') (seqId : ℕ) : p'.aloneHeld seqId = p.aloneHeld seqId := by
  unfold BlockPool.aloneHeld
  simp only [h.table]

theorem lastReferences (h : SameHoldings p p') (seqId b : ℕ) :
    p'.LastReferences seqId b ↔ p.LastReferences seqId b := by
  unfold LastReferences
  rw [h.numBlocks, h.refCount, h.table]

theorem released (h : SameHoldings p q) (h' : SameHoldings p' q') (hr : Released p p' seqId) : Released q q' seqId where
  nothing := by
    have hnothing := hr.nothing
    unfold hasSeq at hnothing ⊢
    rwa [h'.seqBlocks]
  grown := by
    rw [h'.freeBlocks, h.freeBlocks, h.aloneHeld]
    exact hr.grown
  others id hid := by
    rw [h'.seqBlocks, h.seqBlocks]
    exact hr.others id hid
  retained id hid b hb := by
    rw [h.table] at hb
    rw [h'.freeBlocks]
    exact hr.retained id hid b hb

end SameHoldings

section commits

variable [Xxh3]

/-- A commit changes what the blocks hold, not who holds them. -/
theorem commitLoop_sameHoldings (tokenIds : List ℤ) (table : List ℕ) (blockIdx : ℕ) (h : ℤ) (p : BlockPool) :
    SameHoldings p (commitLoop tokenIds table blockIdx h p) := by
  induction table generalizing blockIdx h p with
  | nil => exact .refl p
  | cons b table ih =>
    rw [commitLoop]
    dsimp only
    split
    case isTrue => exact .refl p
    case isFalse =>
      split
      case h_1 => exact ih _ _ p
      case h_2 m hget =>
        have hm : m = p.blocks b := by
          unfold getBlock at hget
          split at hget
          case isTrue => exact (Option.some.inj hget).symm
          case isFalse => cases hget
        subst hm
        split
        case isTrue =>
          refine SameHoldings.trans ?_ (ih _ _ _)
          exact ⟨rfl, rfl, rfl, fun _ => rfl⟩
        case isFalse =>
          refine SameHoldings.trans ⟨by simp [setBlock], by simp [setBlock], by simp [setBlock], fun c => ?_⟩
            (ih _ _ _)
          rw [touchReadyHash_blocks]
          show (Function.update p.blocks b _ c).refCount = _
          rw [Function.update_apply]
          split
          case isTrue hcb => rw [hcb]
          case isFalse => rfl

theorem commitReady_sameHoldings (p : BlockPool) (seqId : ℕ) (tokenIds : List ℤ) (committedTokens : ℤ) :
    SameHoldings p (p.commitReady seqId tokenIds committedTokens) := by
  unfold commitReady
  split
  case h_1 => exact .refl p
  case h_2 => exact commitLoop_sameHoldings tokenIds _ 0 (-1) p

end commits

end BlockPool

namespace SlotPool

/-- From `p` to `p'` the sequence has given back its slot. -/
structure Released (p p' : SlotPool) (seqId : ℕ) : Prop where
  nothing : p'.seqSlots seqId = none
  grown : p'.freeSlots.length = p.freeSlots.length + (p.seqSlots seqId).toList.length
  others : ∀ id, id ≠ seqId → p'.seqSlots id = p.seqSlots id
  retained : ∀ id, id ≠ seqId → ∀ slot ∈ p.seqSlots id, slot ∉ p'.freeSlots

theorem Sound.released {p : SlotPool} (hp : p.Sound) (seqId : ℕ) : Released p (p.remove seqId) seqId := by
  refine ⟨?_, ?_, fun id hid => ?_, fun id hid slot hslot => ?_⟩
  · rw [remove_seqSlots, Function.update_self]
  · unfold SlotPool.remove
    split
    case h_1 hnone => simp [hnone]
    case h_2 slot hslot =>
      unfold releaseSlot
      rw [if_neg (hp.held_not_free hslot)]
      simp [hslot]
  · rw [remove_seqSlots, Function.update_of_ne hid]
  · refine (hp.remove seqId).held_not_free (a := id) ?_
    rw [remove_seqSlots, Function.update_of_ne hid]
    exact hslot

end SlotPool

namespace CompressedPool

/-- From `p` to `p'` the sequence has given back its pages. -/
structure Released (p p' : CompressedPool) (seqId : ℕ) : Prop where
  nothing : p'.seqPages seqId = none
  grown : p'.freePages.length = p.freePages.length + ((p.seqPages seqId).getD []).length
  others : ∀ id, id ≠ seqId → p'.seqPages id = p.seqPages id
  retained : ∀ id, id ≠ seqId → ∀ page ∈ (p.seqPages id).getD [], page ∉ p'.freePages

theorem removeSeq_seqPages (p : CompressedPool) (seqId : ℕ) :
    (p.removeSeq seqId).seqPages = Function.update p.seqPages seqId none := by
  unfold CompressedPool.removeSeq
  split
  case h_1 h => rw [← h, Function.update_eq_self]
  case h_2 => rfl

theorem Pages.released {n : ℕ} {p : CompressedPool} (hp : p.Pages n) (seqId : ℕ) :
    Released p (p.removeSeq seqId) seqId := by
  refine ⟨?_, ?_, fun id hid => ?_, fun id hid page hpage => ?_⟩
  · rw [removeSeq_seqPages, Function.update_self]
  · unfold CompressedPool.removeSeq
    split
    case h_1 hnone => simp [hnone]
    case h_2 pages hpages => simp [hpages, Nat.add_comm]
  · rw [removeSeq_seqPages, Function.update_of_ne hid]
  · cases hpages : p.seqPages id with
    | none => simp [hpages] at hpage
    | some pages =>
      refine (hp.removeSeq seqId).partition.held_not_free id pages ?_ page (by simpa [hpages] using hpage)
      rw [removeSeq_seqPages, Function.update_of_ne hid, hpages]

end CompressedPool

/-! ## All tiers -/

theorem SlotPart.PoolsSound.exists_pages {config : SchedulerConfig} {p : SlotPart} (h : p.PoolsSound config) :
    ∀ pool ∈ p.compressedPools, ∃ n, pool.Pages n := by
  have hpages := h.pages
  generalize CacheState.newCompressedPools config.cachePlan = pools₀, p.compressedPools = pools at hpages ⊢
  induction hpages with
  | nil => simp
  | cons hpool _ ih => exact List.forall_mem_cons.2 ⟨⟨_, hpool.2⟩, ih⟩

namespace CacheState

/-- No pending swap task names a block of `hbm` on the HBM side or one of `host` on the host side. -/
def TasksAvoid (c : CacheState) (hbm host : ℕ → Set ℕ) : Prop :=
  ∀ flat,
    (∀ task ∈ c.pendingSwapOutTasks flat, (∀ b ∈ task.fromBlocks, b ∉ hbm flat) ∧
      ∀ b ∈ task.toBlocks, b ∉ host flat) ∧
    ∀ task ∈ c.pendingSwapInTasks flat, (∀ b ∈ task.fromBlocks, b ∉ host flat) ∧
      ∀ b ∈ task.toBlocks, b ∉ hbm flat

structure ReleaseComplete (c c' : CacheState) (seqId : ℕ) : Prop where
  hbm : ∀ flat, (c.hbmPools flat).Released (c'.hbmPools flat) seqId
  host : ∀ flat, (c.hostPools flat).Released (c'.hostPools flat) seqId
  stateSlots : ∀ d, (c.stateSlots d).Released (c'.stateSlots d) seqId
  hisparseSlots : ∀ d, (c.hisparseSlots d).Released (c'.hisparseSlots d) seqId
  pages : List.Forall₂ (fun pool pool' => pool.Released pool' seqId) c.compressedPools c'.compressedPools
  pending : c'.pendingHostSwaps seqId = none
  tasks : c'.TasksAvoid (fun flat => (c.hbmPools flat).freed (c'.hbmPools flat))
    (fun flat => (c.hostPools flat).freed (c'.hostPools flat))

/-- What a complete release needs of the state before it. -/
structure ReleasesAll (c : CacheState) (seqId group : ℕ) : Prop where
  /-- the sequence has blocks on HBM only on the rank that it is assigned to -/
  home : ∀ flat, (c.hbmPools flat).hasSeq seqId = true → c.assignedFlat seqId group = some flat
  /-- no reference to a block that only it holds has been forgotten -/
  hbm : ∀ flat, ∀ b ∈ (c.hbmPools flat).aloneHeld seqId, (c.hbmPools flat).LastReferences seqId b
  host : ∀ flat, ∀ b ∈ (c.hostPools flat).aloneHeld seqId, (c.hostPools flat).LastReferences seqId b
  /-- no swap task is pending for such a block -/
  tasks : c.TasksAvoid (fun flat => (c.hbmPools flat).aloneHeld seqId) (fun flat => (c.hostPools flat).aloneHeld seqId)

variable {c c' : CacheState} {seqId group : ℕ}

theorem TasksAvoid.congr {hbm host : ℕ → Set ℕ} (hout : c'.pendingSwapOutTasks = c.pendingSwapOutTasks)
    (hin : c'.pendingSwapInTasks = c.pendingSwapInTasks) : c'.TasksAvoid hbm host ↔ c.TasksAvoid hbm host := by
  unfold TasksAvoid
  rw [hout, hin]

theorem releaseSeq_hbmPools_of_home
    (home : ∀ flat, (c.hbmPools flat).hasSeq seqId = true → c.assignedFlat seqId group = some flat) (flat : ℕ) :
    (c.releaseSeq seqId group).hbmPools flat = (c.hbmPools flat).removeSeq seqId := by
  rw [releaseSeq_hbmPools]
  split
  case isTrue => rfl
  case isFalse hne =>
    refine (BlockPool.removeSeq_of_none _ seqId ?_).symm
    by_contra hsome
    exact hne (home flat (Option.isSome_iff_ne_none.2 hsome))

/-- **`release_seq` gives back everything exactly under `ReleasesAll`.** -/
theorem releaseSeq_complete_iff {config : SchedulerConfig} (hc : c.PoolsCounted)
    (hslots : c.slotPart.PoolsSound config) :
    c.ReleaseComplete (c.releaseSeq seqId group) seqId ↔ c.ReleasesAll seqId group := by
  have hpending := c.releaseSeq_pending seqId group
  have hpart := c.releaseSeq_slotPart seqId group
  constructor
  · intro h
    have home : ∀ flat, (c.hbmPools flat).hasSeq seqId = true → c.assignedFlat seqId group = some flat := by
      intro flat hseq
      by_contra hne
      have hnothing := (h.hbm flat).nothing
      rw [releaseSeq_hbmPools, if_neg hne, hseq] at hnothing
      cases hnothing
    have hhbm := releaseSeq_hbmPools_of_home home
    have hlast : ∀ flat, ∀ b ∈ (c.hbmPools flat).aloneHeld seqId, (c.hbmPools flat).LastReferences seqId b :=
      fun flat =>
      (hc flat).1.released_iff.1 (hhbm flat ▸ h.hbm flat)
    have hlastHost : ∀ flat, ∀ b ∈ (c.hostPools flat).aloneHeld seqId,
      (c.hostPools flat).LastReferences seqId b :=
      fun flat => (hc flat).2.released_iff.1 (c.releaseSeq_hostPools seqId group flat ▸ h.host flat)
    refine ⟨home, hlast, hlastHost, ?_⟩
    have htasks := (TasksAvoid.congr hpending.2.1 hpending.2.2).1 h.tasks
    simp only [hhbm, releaseSeq_hostPools, (hc _).1.freed_eq (hlast _), (hc _).2.freed_eq (hlastHost _)] at htasks
    exact htasks
  · intro h
    have hhbm := releaseSeq_hbmPools_of_home h.home
    refine ⟨fun flat => ?_, fun flat => ?_, fun d => ?_, fun d => ?_, ?_, ?_, ?_⟩
    · rw [hhbm]
      exact (hc flat).1.released_iff.2 (h.hbm flat)
    · rw [releaseSeq_hostPools]
      exact (hc flat).2.released_iff.2 (h.host flat)
    · rw [show (c.releaseSeq seqId group).stateSlots = _ from congrArg SlotPart.stateSlots hpart]
      exact (hslots.slots .state d).released seqId
    · rw [show (c.releaseSeq seqId group).hisparseSlots = _ from congrArg SlotPart.hisparseSlots hpart]
      exact (hslots.slots .hisparse d).released seqId
    · rw [show (c.releaseSeq seqId group).compressedPools = _ from congrArg SlotPart.compressedPools hpart]
      refine List.forall₂_map_right_iff.2 (List.forall₂_same.2 fun pool hpool => ?_)
      obtain ⟨n, hn⟩ := hslots.exists_pages pool hpool
      exact hn.released seqId
    · rw [hpending.1, Function.update_self]
    · refine (TasksAvoid.congr hpending.2.1 hpending.2.2).2 ?_
      simp only [hhbm, releaseSeq_hostPools, (hc _).1.freed_eq (h.hbm _), (hc _).2.freed_eq (h.host _)]
      exact h.tasks

/-- Two states in which the same is held, swap tasks included. -/
structure SameHoldings (c c' : CacheState) : Prop where
  hbm : ∀ flat, (c.hbmPools flat).SameHoldings (c'.hbmPools flat)
  host : c'.hostPools = c.hostPools
  slotPart : c'.slotPart = c.slotPart
  pending : c'.pendingHostSwaps = c.pendingHostSwaps
  swapOuts : c'.pendingSwapOutTasks = c.pendingSwapOutTasks
  swapIns : c'.pendingSwapInTasks = c.pendingSwapInTasks

namespace SameHoldings

theorem refl (c : CacheState) : SameHoldings c c := ⟨fun _ => .refl _, rfl, rfl, rfl, rfl, rfl⟩

theorem symm (h : SameHoldings c c') : SameHoldings c' c :=
  ⟨fun flat => (h.hbm flat).symm, h.host.symm, h.slotPart.symm, h.pending.symm, h.swapOuts.symm, h.swapIns.symm⟩

theorem complete {d d' : CacheState} (h : SameHoldings c d) (h' : SameHoldings c' d')
    (hc : c.ReleaseComplete c' seqId) :
    d.ReleaseComplete d' seqId := by
  obtain ⟨hhbm, hhost, hstate, hhisparse, hpages, hpending, htasks⟩ := hc
  have hpart : ∀ {a b : CacheState}, SameHoldings a b →
    b.stateSlots = a.stateSlots ∧ b.hisparseSlots = a.hisparseSlots ∧
      b.compressedPools = a.compressedPools := fun hab => ⟨congrArg SlotPart.stateSlots hab.slotPart,
    congrArg SlotPart.hisparseSlots hab.slotPart, congrArg SlotPart.compressedPools hab.slotPart⟩
  refine ⟨fun flat => (h.hbm flat).released (h'.hbm flat) (hhbm flat), ?_, ?_, ?_, ?_, ?_, ?_⟩
  · rwa [h.host, h'.host]
  · rwa [(hpart h).1, (hpart h').1]
  · rwa [(hpart h).2.1, (hpart h').2.1]
  · rwa [(hpart h).2.2, (hpart h').2.2]
  · rwa [h'.pending]
  · rw [TasksAvoid.congr h'.swapOuts h'.swapIns, h.host, h'.host]
    unfold BlockPool.freed
    simp only [(h.hbm _).freeBlocks, (h'.hbm _).freeBlocks]
    exact htasks

theorem releasesAll (h : SameHoldings c c') : c'.ReleasesAll seqId group ↔ c.ReleasesAll seqId group := by
  have himp : ∀ {a b : CacheState}, SameHoldings a b → a.ReleasesAll seqId group → b.ReleasesAll seqId group := by
    intro a b hab ha
    refine ⟨fun flat hseq => ?_, fun flat => ?_, ?_, ?_⟩
    · have hassign : b.seqAssignment = a.seqAssignment := congrArg SlotPart.seqAssignment hab.slotPart
      unfold BlockPool.hasSeq at hseq
      rw [(hab.hbm flat).seqBlocks] at hseq
      unfold assignedFlat
      rw [hassign]
      exact ha.home flat hseq
    · simp only [(hab.hbm flat).aloneHeld, (hab.hbm flat).lastReferences]
      exact ha.hbm flat
    · rw [hab.host]
      exact ha.host
    · rw [TasksAvoid.congr hab.swapOuts hab.swapIns, hab.host]
      simp only [(hab.hbm _).aloneHeld]
      exact ha.tasks
  exact ⟨himp h.symm, himp h⟩

end SameHoldings

end CacheState

/-! ## The releases of the scheduler -/

namespace Scheduler

variable [Xxh3] {config : SchedulerConfig} {s s' : Scheduler} {seqId : ℕ}

theorem commitHbmBlocks_sameHoldings (s : Scheduler) (seqId : ℕ) (committedTokens : ℤ) :
    s.cache.SameHoldings (s.commitHbmBlocks seqId committedTokens).cache := by
  unfold commitHbmBlocks
  split
  case h_1 => exact .refl _
  case h_2 seq _ =>
    dsimp only
    split
    case isTrue => exact .refl _
    case isFalse =>
      refine ⟨fun flat => ?_, rfl, rfl, rfl, rfl, rfl⟩
      dsimp only [setCache, CacheState.setHbmPool]
      rw [Function.update_apply]
      split
      case isTrue hflat =>
        rw [hflat]
        exact BlockPool.commitReady_sameHoldings _ _ _ _
      case isFalse => exact .refl _

theorem postprocessAppend_sameHoldings (s : Scheduler) (seqId : ℕ) (seq : Sequence)
    (tokens : List ℤ) (logprobs : List ℚ) :
    s.cache.SameHoldings (s.postprocessAppend seqId seq tokens logprobs).2.cache := by
  unfold postprocessAppend
  dsimp only
  set start := if seq.status = .prefilling then { seq with status := SequenceStatus.running } else seq
  set s₁ : Scheduler := { s with seqTable := Function.update s.seqTable seqId (some start) }
  split
  case isTrue => exact s₁.commitHbmBlocks_sameHoldings seqId (promptTarget start)
  case isFalse => exact .refl _

/-- The calls that release a sequence. -/
inductive Releases (s : Scheduler) (seqId : ℕ) : Scheduler → Prop
  /-- `postprocess_impl` comes to the sequence, and it finishes -/
  | finished (dpIdx : ℕ) (row : Option (List ℤ)) (logprobs : List ℚ) (hlive : s.unfinished seqId = true)
    (hfinished : ((s.postprocessSeq dpIdx seqId row logprobs).seqTable seqId).map (·.status) = some .finished) :
    Releases s seqId (s.postprocessSeq dpIdx seqId row logprobs)
  | aborted (hfound : (s.abortImpl seqId).1 = true) : Releases s seqId (s.abortImpl seqId).2
  | freed : Releases s seqId (s.freeToBeMigrated seqId)

/-- A sequence that finishes is released after its tokens have been applied. -/
theorem postprocessSeq_finished {dpIdx : ℕ} {row : Option (List ℤ)} {logprobs : List ℚ}
    (hlive : s.unfinished seqId = true)
    (hfinished : ((s.postprocessSeq dpIdx seqId row logprobs).seqTable seqId).map (·.status) = some .finished) :
    ∃ seq tokens, s.seqTable seqId = some seq ∧ (s.postprocessSeq dpIdx seqId row logprobs).cache =
      (s.postprocessAppend seqId seq tokens logprobs).2.cache.releaseSeq seqId s.group := by
  obtain ⟨seq, hseq, hstatus⟩ := exists_of_unfinished hlive
  have hsame : (s.seqTable seqId).map (·.status) ≠ some .finished := by
    rw [hseq]
    simpa using hstatus
  unfold postprocessSeq at hfinished ⊢
  split at hfinished
  case isTrue => exact absurd hfinished hsame
  case isFalse hdummy =>
    rw [if_neg hdummy]
    split at hfinished
    case h_1 => exact absurd hfinished hsame
    case h_2 tokens =>
      rw [hseq] at hfinished ⊢
      dsimp only at hfinished ⊢
      split at hfinished
      case isTrue =>
        simp [pushPrefilling, updateSeq, commitHbmBlocks_seqTable, hseq] at hfinished
      case isFalse hreached =>
        rw [if_neg hreached]
        refine ⟨seq, tokens, rfl, ?_⟩
        unfold postprocessPlace at hfinished ⊢
        split at hfinished
        case isTrue hterminal =>
          rw [if_pos hterminal]
          have hgroup : (s.postprocessAppend seqId seq tokens logprobs).2.group = s.group :=
            congrArg SchedulerConfig.group (postprocessAppend_same hseq tokens logprobs).config
          generalize (s.postprocessAppend seqId seq tokens logprobs).2 = s₁ at hgroup ⊢
          rw [← hgroup]
          rfl
        case isFalse =>
          split at hfinished
          case isTrue => simp [updateSeq] at hfinished
          case isFalse => simp [pushRunning, updateSeq] at hfinished

end Scheduler

/-- The states in which a sequence can be released: between the steps of the engine, and while a result is postprocessed
or a list of ids is freed. -/
inductive ReleasePoint [Xxh3] (config : SchedulerConfig) : Scheduler → Prop
  | between {x : EngineState} (hx : Reachable (engineSystem config) always x) : ReleasePoint config x.sched
  | started {x : EngineState} {r : ScheduleResult} {s : Scheduler} (hx : Reachable (engineSystem config) always x)
    (hs : x.sched.schedule = (.ok r, s)) :
      ReleasePoint config ((s.completeSwaps r).postprocessStart r.filteredDpGroupSeqIds)
  | postprocessed {s : Scheduler} (dpIdx seqId : ℕ) (row : Option (List ℤ)) (logprobs : List ℚ)
    (h : ReleasePoint config s) : ReleasePoint config (s.postprocessSeq dpIdx seqId row logprobs)
  | freed {s : Scheduler} (seqId : ℕ) (h : ReleasePoint config s) : ReleasePoint config (s.freeToBeMigrated seqId)

section points

variable [Xxh3] {config : SchedulerConfig} {s s' : Scheduler} {seqId : ℕ}

theorem PoolRule.freeToBeMigrated {K : CacheState → Prop} (hK : PoolRule config K)
    (h : PoolInv config K s) (seqId : ℕ) :
    PoolInv config K (s.freeToBeMigrated seqId) := by
  have hrelease : PoolInv config K (s.releaseSeq seqId) := hK.release h
  unfold Scheduler.freeToBeMigrated
  split
  case isTrue => exact hK.same hrelease ⟨rfl, rfl, rfl, rfl⟩
  case isFalse => exact hrelease

omit [Xxh3] in
theorem SlotPoolsInv.freeToBeMigrated (h : SlotPoolsInv config s) (seqId : ℕ) :
    SlotPoolsInv config (s.freeToBeMigrated seqId) := by
  have hrelease := h.releaseSeq seqId
  unfold Scheduler.freeToBeMigrated
  split
  case isTrue => exact ⟨hrelease.config_eq, hrelease.sound⟩
  case isFalse => exact hrelease

/-- All pools are in order there. -/
theorem ReleasePoint.pools (h : ReleasePoint config s) :
    PoolInv config CacheState.PoolsCounted s ∧ SlotPoolsInv config s := by
  have hK := poolsCounted_rule config
  induction h with
  | between hx =>
    exact ⟨((hK.engineRule _ _ _).holds hx).holds, ((SlotPoolsInv.engineRule config _ _ _).holds hx).holds⟩
  | @started x r s hx hs =>
    have hpools := (hK.engineRule (fun _ _ _ => true) (fun _ _ _ => true) (fun _ _ => true)).holds hx
    have hslots := (SlotPoolsInv.engineRule config (fun _ _ _ => true) (fun _ _ _ => true) (fun _ _ => true)).holds hx
    have hpools' :=
      ((hK.stepRule _ _ (fun _ _ => true) x.live).schedule hpools.holds hpools.queued x.sched.scheduleTested_true).1
    have hslots' := ((SlotPoolsInv.stepRule config _ _ (fun _ _ => true) x.live).schedule hslots.holds hslots.queued
      x.sched.scheduleTested_true).1
    rw [hs] at hpools' hslots'
    exact ⟨hK.same (hK.completeSwaps hpools' r) ⟨rfl, rfl, rfl, rfl⟩,
      ⟨(hslots'.completeSwaps r).config_eq, (hslots'.completeSwaps r).sound⟩⟩
  | postprocessed dpIdx seqId row logprobs _ ih =>
    exact ⟨hK.postprocessSeq ih.1 row logprobs, ih.2.postprocessSeq dpIdx seqId row logprobs⟩
  | freed seqId _ ih => exact ⟨hK.freeToBeMigrated ih.1 seqId, ih.2.freeToBeMigrated seqId⟩

/-- **A release is complete** exactly when the sequence has HBM blocks on its own rank only, no block that only it holds
has a forgotten reference, and no swap task is pending for such a block. -/
theorem release_complete (hs : ReleasePoint config s) (h : s.Releases seqId s') :
    s.cache.ReleaseComplete s'.cache seqId ↔ s.cache.ReleasesAll seqId s.group := by
  obtain ⟨hpools, hslots⟩ := hs.pools
  have hrelease := @CacheState.releaseSeq_complete_iff s.cache seqId s.group config hpools.pools hslots.sound
  have hsame : ∀ {c : CacheState}, (s.cache.releaseSeq seqId s.group).SameHoldings c →
      (s.cache.ReleaseComplete c seqId ↔ s.cache.ReleasesAll seqId s.group) := fun hc => by
    rw [← hrelease]
    exact ⟨CacheState.SameHoldings.complete (.refl _) hc.symm, CacheState.SameHoldings.complete (.refl _) hc⟩
  cases h with
  | finished dpIdx row logprobs hlive hfinished =>
    obtain ⟨seq, tokens, hseq, hcache⟩ := postprocessSeq_finished hlive hfinished
    have happend := s.postprocessAppend_sameHoldings seqId seq tokens logprobs
    have hpools₁ : PoolInv config CacheState.PoolsCounted (s.postprocessAppend seqId seq tokens logprobs).2 :=
      (poolsCounted_rule config).postprocessAppend hpools seq tokens logprobs
    have hslots₁ := hslots.same (postprocessAppend_same hseq tokens logprobs)
    rw [hcache, ← happend.releasesAll, ← CacheState.releaseSeq_complete_iff hpools₁.pools hslots₁.sound]
    exact ⟨CacheState.SameHoldings.complete happend (.refl _),
      CacheState.SameHoldings.complete happend.symm (.refl _)⟩
  | aborted hfound =>
    refine hsame ?_
    unfold abortImpl at hfound ⊢
    split
    case isTrue => exact ⟨fun _ => .refl _, rfl, rfl, rfl, rfl, rfl⟩
    case isFalse hnot => simp [hnot] at hfound
  | freed =>
    refine hsame ?_
    unfold freeToBeMigrated
    split <;> exact .refl _

end points

section runs

attribute [local instance] codeHash

/-- One rank with blocks of eight tokens. -/
def oneRankConfig : SchedulerConfig where
  maxNumSeqs := 8
  maxNumBatchedTokens := 64
  maxModelLen := 100
  numKvcacheBlocks := 16
  kvcacheBlockSize := 8

def tenTokens (seqId : ℕ) : EngineOp :=
  .addRequest { seqId := seqId, promptTokenIds := [1, 2, 3, 4, 5, 6, 7, 8, 9, 10] }

/-- Sequence 1 has the prompt of sequence 0: they share the first block. -/
def sharedRun : List EngineOp :=
  [tenTokens 0, .step [[[21]]] [], .step [[[22]]] [], tenTokens 1, .step [[[21]]] [], .step [[[22], [22]]] []]

@[irreducible] def sharedState : EngineState :=
  (run (engineSystem oneRankConfig) always sharedRun (EngineState.init oneRankConfig)).getD
    (EngineState.init oneRankConfig)

theorem sharedState_reachable : Reachable (engineSystem oneRankConfig) always sharedState := by
  have hrun : (run (engineSystem oneRankConfig) always sharedRun (EngineState.init oneRankConfig)).isSome = true := by
    decide +kernel
  obtain ⟨x, hx⟩ := Option.isSome_iff_exists.1 hrun
  have hinitial : Reachable (engineSystem oneRankConfig) always (EngineState.init oneRankConfig) := .initial rfl
  have hstate : sharedState = x := by
    unfold sharedState
    rw [hx]
    exact Option.getD_some
  rw [hstate]
  exact hinitial.of_run hx

/-- Ranks that the configuration does not have hold nothing, and so does the host. -/
theorem sharedState_elsewhere (n : ℕ) : (sharedState.sched.cache.hbmPools (n + 1)).seqBlocks 1 = none ∧
    (sharedState.sched.cache.hostPools (n + 1)).seqBlocks 1 = none ∧
    (sharedState.sched.cache.hostPools 0).seqBlocks 1 = none ∧
    sharedState.sched.cache.pendingSwapOutTasks n = [] ∧ sharedState.sched.cache.pendingSwapInTasks n = [] := by
  refine ⟨?_, ?_, ?_, ?_, ?_⟩
  all_goals
    unfold sharedState
    cbv

/-- The sequence that is aborted gives back block 2; block 0 stays with sequence 0. -/
theorem release_complete_shared : ∃ s s', ReleasePoint oneRankConfig s ∧ s.Releases 1 s' ∧
    s.cache.ReleaseComplete s'.cache 1 ∧ (s.cache.hbmPools 0).seqBlocks 1 = some [0, 2] ∧
    2 ∈ (s'.cache.hbmPools 0).freeBlocks ∧ (s'.cache.hbmPools 0).seqBlocks 0 = some [0, 1] := by
  have hfound : (sharedState.sched.abortImpl 1).1 = true := by decide +kernel
  have hgroup : sharedState.sched.group = 1 := by decide +kernel
  have hblocks : (sharedState.sched.cache.hbmPools 0).seqBlocks 1 = some [0, 2] ∧
      (sharedState.sched.cache.hbmPools 0).seqBlocks 0 = some [0, 1] ∧
      (2 < (sharedState.sched.cache.hbmPools 0).numBlocks ∧
        ((sharedState.sched.cache.hbmPools 0).blocks 2).refCount = 1) ∧
      sharedState.sched.cache.assignedFlat 1 1 = some 0 ∧
      2 ∈ ((sharedState.sched.abortImpl 1).2.cache.hbmPools 0).freeBlocks ∧
      ((sharedState.sched.abortImpl 1).2.cache.hbmPools 0).seqBlocks 0 = some [0, 1] := by
    decide +kernel
  obtain ⟨hone, hzero, hlast, hassigned, hfree, hstays⟩ := hblocks
  have htable : (sharedState.sched.cache.hbmPools 0).table 1 = [0, 2] := by
    rw [BlockPool.table, hone, Option.getD_some]
  refine ⟨sharedState.sched, _, .between sharedState_reachable, .aborted hfound,
    (release_complete (.between sharedState_reachable) (.aborted hfound)).2
      ⟨fun flat hheld => ?_, fun flat b hb => ?_,
      fun flat b hb => ?_, fun flat => ⟨fun task h => ?_, fun task h => ?_⟩⟩, hone, hfree, hstays⟩
  · cases flat with
    | zero =>
      rw [hgroup]
      exact hassigned
    | succ n =>
      rw [BlockPool.hasSeq, (sharedState_elsewhere n).1] at hheld
      cases hheld
  · cases flat with
    | zero =>
      have hmem := hb.1
      rw [htable, List.mem_pair] at hmem
      rcases hmem with rfl | rfl
      · -- sequence 0 holds block 0 too
        refine absurd ?_ (hb.2 0 (by decide))
        rw [BlockPool.table, hzero]
        decide
      · refine ⟨hlast.1, ?_⟩
        rw [hlast.2, htable]
        decide
    | succ n =>
      have hmem := hb.1
      rw [BlockPool.table, (sharedState_elsewhere n).1] at hmem
      cases hmem
  · have hnone : (sharedState.sched.cache.hostPools flat).seqBlocks 1 = none := by
      cases flat with
      | zero => exact (sharedState_elsewhere 0).2.2.1
      | succ n => exact (sharedState_elsewhere n).2.1
    have hmem := hb.1
    rw [BlockPool.table, hnone] at hmem
    cases hmem
  · rw [(sharedState_elsewhere flat).2.2.2.1] at h
    cases h
  · rw [(sharedState_elsewhere flat).2.2.2.2] at h
    cases h

/-- The pages run out for sequence 3 on rank 1, where it has its blocks already.  Once a page is free it is admitted on
rank 0, and when it is aborted there the blocks on rank 1 stay. -/
theorem not_release_complete : ¬ ∀ (config : SchedulerConfig) (s s' : Scheduler) (seqId : ℕ), config.group = 1 →
    ReleasePoint config s → s.Releases seqId s' → s.cache.ReleaseComplete s'.cache seqId := by
  intro h
  obtain ⟨x, hx, hP⟩ := Reachable.exists_of_run (T := engineSystem pagedConfig) (G := always)
    (P := fun x : EngineState => (x.sched.abortImpl 3).1 && ((x.sched.abortImpl 3).2.cache.hbmPools 1).hasSeq 3)
    (s := EngineState.init pagedConfig)
    [shortRequest 0, shortRequest 1, shortRequest 2, shortRequest 3, .step [] [], .abort 1, .step [[[7]], []] []] rfl
    (by decide +kernel)
  rw [Bool.and_eq_true] at hP
  have hnothing := ((h pagedConfig x.sched _ 3 rfl (.between hx) (.aborted hP.1)).hbm 1).nothing
  rw [hP.2] at hnothing
  cases hnothing

end runs

end NanoEngine
