import NanoEngine.Slots.Pools
import NanoEngine.Engine.Rules
import NanoEngine.Queues.Engine

/-!
# NanoEngine.Slots.Frame — what leaves the slots alone

`slotPart c` is the part of the cache with slots, pages and ranks; `SlotSame s s'`: that part and the slots that the
sequences record are unchanged, and no sequence has finished.
-/

namespace NanoEngine

/-- Slot pools, page pools and the ranks of the sequences. -/
structure SlotPart where
  stateSlots : ℕ → SlotPool
  hisparseSlots : ℕ → SlotPool
  compressedPools : List CompressedPool
  seqAssignment : ℕ → Option (ℕ × ℕ)

namespace CacheState

/-- The slots, the pages and the ranks; the block pools are left out. -/
def slotPart (c : CacheState) : SlotPart := ⟨c.stateSlots, c.hisparseSlots, c.compressedPools, c.seqAssignment⟩

theorem writeBackEvictedPrefix_slotPart (c : CacheState) (flat : ℕ) (evicted : Option EvictedBlock)
    (hostEnabled : Bool) :
    (c.writeBackEvictedPrefix flat evicted hostEnabled).2.slotPart = c.slotPart := by
  unfold writeBackEvictedPrefix
  split
  case h_1 => rfl
  case h_2 =>
    split
    case isFalse => rfl
    case isTrue => split <;> rfl

theorem reserveFresh_slotPart (c : CacheState) (flat : ℕ) (hostEnabled : Bool) :
    (c.reserveFresh flat hostEnabled).2.slotPart = c.slotPart := by
  unfold reserveFresh
  split
  case h_1 => rfl
  case h_2 b evicted p _ =>
    have hwrite := writeBackEvictedPrefix_slotPart (c.setHbmPool flat p) flat evicted hostEnabled
    split
    case h_1 c' heq =>
      rw [heq] at hwrite
      exact hwrite
    case h_2 c' heq =>
      rw [heq] at hwrite
      exact hwrite

theorem reservePromoted_slotPart (c : CacheState) (flat seqId : ℕ) (hash : ℤ) (view : List ℤ) (hostBlock : ℕ)
    (hostEnabled : Bool) : (c.reservePromoted flat seqId hash view hostBlock hostEnabled).2.slotPart = c.slotPart := by
  unfold reservePromoted
  split
  case h_1 => rfl
  case h_2 b evicted p _ =>
    have hwrite := writeBackEvictedPrefix_slotPart (c.setHbmPool flat p) flat evicted hostEnabled
    split
    case h_1 c' heq =>
      rw [heq] at hwrite
      exact hwrite
    case h_2 c' heq =>
      rw [heq] at hwrite
      exact hwrite

theorem reserveRetained_slotPart (c : CacheState) (flat blockId : ℕ) :
    (c.reserveRetained flat blockId).2.slotPart = c.slotPart := by
  unfold reserveRetained
  split <;> rfl

theorem reserveStep_slotPart (c : CacheState) (flat seqId : ℕ) (hash : ℤ) (view : List ℤ)
    (lookup hostEnabled : Bool) :
    (c.reserveStep flat seqId hash view lookup hostEnabled).2.2.slotPart = c.slotPart := by
  unfold reserveStep
  split
  case isFalse => exact reserveFresh_slotPart c flat hostEnabled
  case isTrue =>
    dsimp only
    split
    case h_1 => exact reserveRetained_slotPart _ flat _
    case h_2 =>
      split
      case h_1 => exact reservePromoted_slotPart _ flat seqId hash view _ hostEnabled
      case h_2 => exact reserveFresh_slotPart _ flat hostEnabled

/-- Blocks are reserved without a look at slots and pages. -/
theorem reserveLoop_slotPart [Xxh3] (flat seqId : ℕ) (tokenIds : List ℤ) (blockSize : ℕ) (hostEnabled : Bool)
    (n blockIdx : ℕ) (hash : ℤ) (cacheMiss : Bool) (c : CacheState) :
    (reserveLoop flat seqId tokenIds blockSize hostEnabled n blockIdx hash cacheMiss c).2.slotPart = c.slotPart := by
  induction n generalizing blockIdx hash cacheMiss c with
  | zero => rfl
  | succ n ih =>
    rw [reserveLoop]
    split
    case h_1 e miss c' heq =>
      exact (congrArg (fun r => r.2.2.slotPart) heq).symm.trans (reserveStep_slotPart _ _ _ _ _ _ _)
    case h_2 b miss c' heq =>
      have h := (congrArg (fun r => r.2.2.slotPart) heq).symm.trans (reserveStep_slotPart _ _ _ _ _ _ _)
      split
      case h_1 e c'' hloop =>
        exact ((congrArg (fun r => r.2.slotPart) hloop).symm.trans (ih _ _ _ _)).trans h
      case h_2 blocks c'' hloop =>
        exact ((congrArg (fun r => r.2.slotPart) hloop).symm.trans (ih _ _ _ _)).trans h

/-- Counting a cached prefix touches the block pools only. -/
theorem matchedLoop_slotPart [Xxh3] (flat : ℕ) (tokenIds : List ℤ) (blockSize n blockIdx : ℕ)
    (hash : ℤ) (c : CacheState) :
    (matchedLoop flat tokenIds blockSize n blockIdx hash c).2.slotPart = c.slotPart := by
  induction n generalizing blockIdx hash c with
  | zero => rfl
  | succ n ih =>
    rw [matchedLoop]
    dsimp only
    split
    case isTrue => rfl
    case isFalse =>
      split
      case isTrue => exact ih _ _ _
      case isFalse =>
        split
        case isTrue => exact ih _ _ _
        case isFalse => rfl

end CacheState

/-- The slots recorded in a sequence stay, and it does not finish. -/
structure Sequence.KeepsSlots (a b : Sequence) : Prop where
  activeStateSlot : b.activeStateSlot = a.activeStateSlot
  activeHisparseSlot : b.activeHisparseSlot = a.activeHisparseSlot
  unfinished : b.status = .finished → a.status = .finished

theorem Sequence.KeepsSlots.refl (a : Sequence) : a.KeepsSlots a := ⟨rfl, rfl, id⟩

theorem Sequence.KeepsSlots.trans {a b c : Sequence} (h : a.KeepsSlots b) (k : b.KeepsSlots c) : a.KeepsSlots c :=
  ⟨k.activeStateSlot.trans h.activeStateSlot, k.activeHisparseSlot.trans h.activeHisparseSlot,
    fun hf => h.unfinished (k.unfinished hf)⟩

namespace Scheduler

/-- The queues may differ; ranks, slots, pages and what the sequences record of them do not. -/
structure SlotSame (s s' : Scheduler) : Prop where
  config : s'.config = s.config
  slotPart : s'.cache.slotPart = s.cache.slotPart
  table : TableRel Sequence.KeepsSlots s s'

namespace SlotSame

variable {s s' s'' : Scheduler}

theorem refl (s : Scheduler) : SlotSame s s := ⟨rfl, rfl, .refl Sequence.KeepsSlots.refl s⟩

theorem trans (h : SlotSame s s') (k : SlotSame s' s'') : SlotSame s s'' :=
  ⟨k.config.trans h.config, k.slotPart.trans h.slotPart,
    h.table.trans (fun _ _ _ => Sequence.KeepsSlots.trans) k.table⟩

theorem setCache (s : Scheduler) {c : CacheState} (h : c.slotPart = s.cache.slotPart) : SlotSame s (s.setCache c) :=
  ⟨rfl, h, fun _ hn => hn, fun _ a ha => ⟨a, ha, .refl a⟩⟩

theorem updateSeq (s : Scheduler) (seqId : ℕ) (f : Sequence → Sequence) (hf : ∀ a, Sequence.KeepsSlots a (f a)) :
    SlotSame s (s.updateSeq seqId f) :=
  ⟨rfl, rfl, (Frame.of_updateSeq s f hf).table Sequence.KeepsSlots.refl⟩

/-- An entry of the table is replaced. -/
theorem setEntry (s : Scheduler) {seqId : ℕ} {a b : Sequence} (ha : s.seqTable seqId = some a)
    (hab : a.KeepsSlots b) :
    SlotSame s { s with seqTable := Function.update s.seqTable seqId (some b) } := by
  refine ⟨rfl, rfl, fun id hn => ?_, fun id x hx => ?_⟩
  · by_cases hid : id = seqId
    · subst hid
      rw [ha] at hn
      cases hn
    · simpa [Function.update_of_ne hid] using hn
  · by_cases hid : id = seqId
    · subst hid
      rw [ha] at hx
      cases hx
      exact ⟨b, by simp, hab⟩
    · exact ⟨x, by simpa [Function.update_of_ne hid] using hx, .refl x⟩

end SlotSame

/-! ## Reservations of KV blocks -/

theorem cacheAttachActiveBlocks_same (s : Scheduler) (seqId dpIdx groupId : ℕ) (blocks : List ℕ) :
    SlotSame s (s.cacheAttachActiveBlocks seqId dpIdx groupId blocks) :=
  .updateSeq s seqId _ fun _ => ⟨rfl, rfl, id⟩

theorem cacheAttachMigrateBlocks_same (s : Scheduler) (seqId dpIdx groupId : ℕ) (blocks : List ℕ) :
    SlotSame s (s.cacheAttachMigrateBlocks seqId dpIdx groupId blocks) :=
  .updateSeq s seqId _ fun _ => ⟨rfl, rfl, id⟩

theorem cacheAttachBlocks_same (s : Scheduler) (seqId dpIdx groupId : ℕ) (blocks : List ℕ) (setMigrate : Bool) :
    SlotSame s (s.cacheAttachBlocks seqId dpIdx groupId blocks setMigrate) := by
  have h := s.cacheAttachActiveBlocks_same seqId dpIdx groupId blocks
  unfold cacheAttachBlocks
  dsimp only
  split
  case isTrue => exact h.trans (cacheAttachMigrateBlocks_same _ seqId dpIdx groupId blocks)
  case isFalse => exact h

variable [Xxh3]

theorem cacheEnsureGroupBlocksWithHostPrefix_same (s : Scheduler) (seqId dpIdx groupId : ℕ) (tokens : ℤ)
    (setMigrate : Bool) :
      SlotSame s (s.cacheEnsureGroupBlocksWithHostPrefix seqId dpIdx groupId tokens setMigrate).2 := by
  have hloop := CacheState.reserveLoop_slotPart (s.flatIdx dpIdx groupId) seqId
    (((s.seqTable seqId).map (·.tokenIds)).getD []) s.config.blockSize s.hostEnabled
      (s.blocksNeededForTokens tokens) 0 (-1)
    false s.cache
  unfold cacheEnsureGroupBlocksWithHostPrefix
  dsimp only
  split
  case h_1 e c heq =>
    rw [heq] at hloop
    exact .setCache s hloop
  case h_2 blocks c heq =>
    rw [heq] at hloop
    refine SlotSame.trans (.setCache s ?_) (cacheAttachBlocks_same _ seqId dpIdx groupId blocks setMigrate)
    exact hloop

/-- Ensuring the blocks of a group leaves slots and pages alone, with the host prefix cache and without. -/
theorem cacheEnsureGroupBlocks_same (s : Scheduler) (seqId dpIdx groupId : ℕ) (tokens : ℤ) (setMigrate : Bool) :
    SlotSame s (s.cacheEnsureGroupBlocks seqId dpIdx groupId tokens setMigrate).2 := by
  unfold cacheEnsureGroupBlocks
  dsimp only
  split
  case isTrue => exact cacheEnsureGroupBlocksWithHostPrefix_same s seqId dpIdx groupId _ setMigrate
  case isFalse =>
    split
    case h_1 e c heq =>
      exact .setCache s (congrArg (fun r => r.2.slotPart) heq).symm
    case h_2 blocks c heq =>
      exact SlotSame.trans (.setCache s (congrArg (fun r => r.2.slotPart) heq).symm)
        (cacheAttachBlocks_same _ seqId dpIdx groupId blocks setMigrate)

theorem ensureDispatched_same (seqId dpIdx gid : ℕ) (dispatch : List ℤ) (s : Scheduler) :
    SlotSame s (ensureDispatched seqId dpIdx gid dispatch s).2 := by
  induction dispatch generalizing gid s with
  | nil => exact .refl s
  | cons count dispatch ih =>
    rw [ensureDispatched]
    split
    case isTrue =>
      have h := s.cacheEnsureGroupBlocks_same seqId dpIdx gid count (decide (s.config.mode ≠ .decode))
      split
      case h_1 e s' heq =>
        rw [heq] at h
        exact h
      case h_2 blocks s' heq =>
        rw [heq] at h
        exact h.trans (ih (gid + 1) s')
    case isFalse => exact ih (gid + 1) s

theorem admissionCached_same (s : Scheduler) (seqId : ℕ) (seq : Sequence) (dpIdx master : ℕ) :
    SlotSame s (s.admissionCached seqId seq dpIdx master).2 := by
  unfold admissionCached
  split
  case isTrue =>
    refine SlotSame.trans (.setCache s ?_) (.updateSeq _ seqId _ fun _ => ⟨rfl, rfl, id⟩)
    exact CacheState.matchedLoop_slotPart _ _ _ _ _ _ _
  case isFalse => exact .refl s

/-- Until `finish_admission` an admission has touched no slot. -/
theorem prepareAdmission_same (s : Scheduler) (seqId dpIdx : ℕ) (batchSeqs batchTokens : ℕ → ℤ) :
    SlotSame s (s.prepareAdmission seqId dpIdx batchSeqs batchTokens).2 := by
  cases h : s.prepareAdmission seqId dpIdx batchSeqs batchTokens with
  | mk o s' =>
    cases o with
    | none =>
      rcases prepareAdmission_none h with rfl | ⟨seq, master, -, rfl⟩
      · exact .refl s'
      · exact admissionCached_same s seqId seq dpIdx master
    | some a =>
      obtain ⟨seq, -, rfl⟩ := prepareAdmission_some h
      exact admissionCached_same s seqId seq dpIdx a.master

/-! ## Swaps, commits and queues -/

/-- A swap-out moves blocks; the slots are released with the sequence. -/
theorem cachePrepareHostSwapOut_same (s : Scheduler) (seqId : ℕ) :
    SlotSame s (s.cachePrepareHostSwapOut seqId).2 := by
  unfold cachePrepareHostSwapOut
  split
  case isTrue => exact .refl s
  case isFalse =>
    split
    case h_1 => exact .refl s
    case h_2 dpIdx groupId _ =>
      dsimp only
      split
      case isTrue => exact .refl s
      case isFalse =>
        split
        case h_1 e c heq =>
          exact .setCache s (congrArg (fun r => r.2.slotPart) heq).symm
        case h_2 hostBlocks c heq =>
          refine SlotSame.trans (.setCache s ?_) (.updateSeq _ seqId _ fun _ => ⟨rfl, rfl, id⟩)
          exact (congrArg (fun r => r.2.slotPart) heq).symm

omit [Xxh3] in
theorem completeHostSwapIn_same (flat : ℕ) (s : Scheduler) (task : SwapTask) :
    SlotSame s (completeHostSwapIn flat s task) := by
  have hcache : SlotSame s (s.setCache (s.cache.removeHostSeq flat task.seqId)) := .setCache s rfl
  exact hcache.trans (.updateSeq _ task.seqId _ fun _ => ⟨rfl, rfl, id⟩)

/-- Committing indexes blocks by their hashes. -/
theorem commitHbmBlocks_same (s : Scheduler) (seqId : ℕ) (committedTokens : ℤ) :
    SlotSame s (s.commitHbmBlocks seqId committedTokens) := by
  unfold commitHbmBlocks
  split
  case h_1 => exact .refl s
  case h_2 seq _ =>
    dsimp only
    split
    case isTrue => exact .refl s
    case isFalse => exact .setCache s rfl

omit [Xxh3] in
/-- Routing looks prefixes up, which refreshes their place in the LRU order and no more. -/
theorem routeCandidates_same (s : Scheduler) (seqId : ℕ) : SlotSame s (s.routeCandidates seqId).2 := by
  refine ⟨(s.routeCandidates_frame seqId 0).config, ?_, fun id hn => ?_, fun id a ha => ⟨a, ?_, .refl a⟩⟩
  · unfold routeCandidates
    dsimp only
    split
    case h_4 =>
      split
      case isTrue => rfl
      case isFalse =>
        split
        case h_1 => rfl
        case h_2 => split <;> rfl
    all_goals rfl
  · rwa [routeCandidates_seqTable]
  · rwa [routeCandidates_seqTable]

omit [Xxh3] in
theorem markScheduled_same (s : Scheduler) (seqId : ℕ) : SlotSame s (s.markScheduled seqId) :=
  .updateSeq s seqId _ fun _ => ⟨rfl, rfl, id⟩

end Scheduler

end NanoEngine
