import NanoEngine.Engine.StepRule

/-!
# NanoEngine.Engine.PoolRule — invariants of the block pools along runs of the engine

`PoolRule config K` collects what has to be shown of `K`: it speaks of the HBM and host pools only, and every operation
on them keeps it, also one that fails.  `PoolRule.engineRule`: then `K` holds along every run of the engine.
-/

namespace NanoEngine

open Scheduler

variable [Xxh3]

/-- `K` is kept by the pool operations of the scheduler. -/
structure PoolRule (config : SchedulerConfig) (K : CacheState → Prop) : Prop where
  congr : ∀ c c' : CacheState, c'.hbmPools = c.hbmPools → c'.hostPools = c.hostPools → K c → K c'
  init : K (CacheState.new config)
  setPrefixCachingEnabled : ∀ c enabled, K c → K (c.setPrefixCachingEnabled enabled)
  releaseSeq : ∀ c seqId, K c → K (c.releaseSeq seqId config.group)
  removeHbmSeq : ∀ c flat seqId, K c → K (c.removeHbmSeq flat seqId)
  removeHostSeq : ∀ c flat seqId, K c → K (c.removeHostSeq flat seqId)
  ensureHbmBlocks : ∀ c c' flat seqId tokenIds tokens usePrefixCache r,
    c.ensureHbmBlocks flat seqId tokenIds tokens usePrefixCache = (r, c') → K c → K c'
  ensureHostBlocks : ∀ c c' flat seqId tokens r,
    c.ensureHostBlocks flat seqId [] tokens false = (r, c') → K c → K c'
  matchedLoop : ∀ c flat tokenIds needed, K c →
    K (CacheState.matchedLoop flat tokenIds config.blockSize needed 0 (-1) c).2
  reserveFailed : ∀ c c' flat seqId tokenIds hostEnabled needed e,
    CacheState.reserveLoop flat seqId tokenIds config.blockSize hostEnabled needed 0 (-1) false c = (.error e, c') →
      K c → K c'
  reserved : ∀ c c' flat seqId tokenIds hostEnabled needed blocks,
    CacheState.reserveLoop flat seqId tokenIds config.blockSize hostEnabled needed 0 (-1) false c = (.ok blocks, c') →
      K c → K (c'.setHbmPool flat ((c'.hbmPools flat).insertSeqBlocks seqId blocks))
  commitReady : ∀ c flat seqId tokenIds committedTokens, K c →
    K (c.setHbmPool flat ((c.hbmPools flat).commitReady seqId tokenIds committedTokens))

/-- The configuration and `K` of the pools. -/
structure PoolInv (config : SchedulerConfig) (K : CacheState → Prop) (s : Scheduler) : Prop where
  config_eq : s.config = config
  pools : K s.cache

/-- The HBM and host pools and the queued swap-ins stay. -/
structure Scheduler.SamePools (s s' : Scheduler) : Prop where
  config : s'.config = s.config
  hbmPools : s'.cache.hbmPools = s.cache.hbmPools
  hostPools : s'.cache.hostPools = s.cache.hostPools
  swapIns : s'.cache.pendingSwapInTasks = s.cache.pendingSwapInTasks

namespace PoolRule

variable {config : SchedulerConfig} {K : CacheState → Prop} {s s' : Scheduler} {seqId dpIdx : ℕ}

/-- The pools stay. -/
theorem same (hK : PoolRule config K) (h : PoolInv config K s) (hs : SamePools s s') : PoolInv config K s' :=
  ⟨hs.config.trans h.config_eq, hK.congr _ _ hs.hbmPools hs.hostPools h.pools⟩

/-! ## Admission -/

theorem admissionCached (hK : PoolRule config K) (h : PoolInv config K s) (seq : Sequence) (master : ℕ) :
    PoolInv config K (s.admissionCached seqId seq dpIdx master).2 := by
  unfold Scheduler.admissionCached
  split
  case isFalse => exact h
  case isTrue =>
    refine ⟨h.config_eq, ?_⟩
    have hloop := hK.matchedLoop s.cache (s.flatIdx dpIdx master) seq.tokenIds
      (s.blocksNeededForTokens (s.fullLen seq)) h.pools
    rw [← h.config_eq] at hloop
    exact hloop

theorem prepareAdmission (hK : PoolRule config K) (h : PoolInv config K s) (batchSeqs batchTokens : ℕ → ℤ) :
    PoolInv config K (s.prepareAdmission seqId dpIdx batchSeqs batchTokens).2 := by
  rcases hprep : s.prepareAdmission seqId dpIdx batchSeqs batchTokens with ⟨_ | a, s'⟩
  · rcases prepareAdmission_none hprep with rfl | ⟨seq, master, -, rfl⟩
    · exact h
    · exact hK.admissionCached h seq master
  · obtain ⟨seq, -, rfl⟩ := prepareAdmission_some hprep
    exact hK.admissionCached h seq a.master

theorem cacheAttachBlocks (hK : PoolRule config K) (h : PoolInv config K s) (groupId : ℕ) (blocks : List ℕ)
    (setMigrate : Bool) : PoolInv config K (s.cacheAttachBlocks seqId dpIdx groupId blocks setMigrate) := by
  unfold Scheduler.cacheAttachBlocks
  dsimp only
  split
  · exact hK.same h ⟨rfl, rfl, rfl, rfl⟩
  · exact hK.same h ⟨rfl, rfl, rfl, rfl⟩

theorem cacheEnsureGroupBlocks (hK : PoolRule config K) (h : PoolInv config K s) (groupId : ℕ) (tokens : ℤ)
    (setMigrate : Bool) : PoolInv config K (s.cacheEnsureGroupBlocks seqId dpIdx groupId tokens setMigrate).2 := by
  have hpools := h.pools
  have hconfig := h.config_eq
  unfold Scheduler.cacheEnsureGroupBlocks
  dsimp only
  split
  case isTrue =>
    unfold cacheEnsureGroupBlocksWithHostPrefix
    dsimp only
    rw [hconfig]
    split
    case h_1 e c heq => exact ⟨hconfig, hK.reserveFailed _ _ _ _ _ _ _ _ heq hpools⟩
    case h_2 blocks c heq =>
      have hins := hK.reserved _ _ _ _ _ _ _ _ heq hpools
      exact hK.cacheAttachBlocks (s := s.setCache (c.setHbmPool _ _)) ⟨hconfig, hins⟩ _ _ _
  case isFalse =>
    split
    case h_1 e c heq => exact ⟨hconfig, hK.ensureHbmBlocks _ _ _ _ _ _ _ _ heq hpools⟩
    case h_2 blocks c heq =>
      have hens := hK.ensureHbmBlocks _ _ _ _ _ _ _ _ heq hpools
      exact hK.cacheAttachBlocks (s := s.setCache c) ⟨hconfig, hens⟩ _ _ _

theorem ensureDispatched (hK : PoolRule config K) (h : PoolInv config K s) (gid : ℕ) (dispatch : List ℤ) :
    PoolInv config K (Scheduler.ensureDispatched seqId dpIdx gid dispatch s).2 := by
  induction dispatch generalizing gid s with
  | nil => exact h
  | cons count dispatch ih =>
    rw [Scheduler.ensureDispatched]
    split
    case isFalse => exact ih h (gid + 1)
    case isTrue =>
      have hgroup : PoolInv config K (s.cacheEnsureGroupBlocks seqId dpIdx gid count
        (decide (s.config.mode ≠ .decode))).2 :=
        hK.cacheEnsureGroupBlocks h gid count _
      split
      case h_1 e s' heq =>
        rw [heq] at hgroup
        exact hgroup
      case h_2 blocks s' heq =>
        rw [heq] at hgroup
        exact ih hgroup (gid + 1)

theorem reserveAdmission (hK : PoolRule config K) (h : PoolInv config K s) (a : Admission) :
    PoolInv config K (s.reserveAdmission seqId dpIdx a).2 :=
  hK.ensureDispatched (s := s.beginAdmission seqId dpIdx a.master a.cached (a.cached + a.newTokens) _)
    (hK.same h ⟨rfl, rfl, rfl, rfl⟩) 0 _

end PoolRule

/-! ### Slots and pages -/

namespace Scheduler

namespace SamePools

omit [Xxh3]

theorem refl (s : Scheduler) : SamePools s s := ⟨rfl, rfl, rfl, rfl⟩

theorem trans {s s' s'' : Scheduler} (h : SamePools s s') (k : SamePools s' s'') : SamePools s s'' :=
  ⟨k.config.trans h.config, k.hbmPools.trans h.hbmPools, k.hostPools.trans h.hostPools, k.swapIns.trans h.swapIns⟩

end SamePools

variable (s : Scheduler) (seqId : ℕ)

omit [Xxh3]

theorem cacheEnsureStateSlot_samePools : SamePools s (s.cacheEnsureStateSlot seqId).2 := by
  have hens : (s.cache.ensureStateSlot s.dp seqId).2.hbmPools = s.cache.hbmPools ∧
      (s.cache.ensureStateSlot s.dp seqId).2.hostPools = s.cache.hostPools ∧
      (s.cache.ensureStateSlot s.dp seqId).2.pendingSwapInTasks = s.cache.pendingSwapInTasks := by
    unfold CacheState.ensureStateSlot
    split
    · exact ⟨rfl, rfl, rfl⟩
    · split <;> exact ⟨rfl, rfl, rfl⟩
  unfold cacheEnsureStateSlot
  split
  case isFalse => exact .refl s
  case isTrue =>
    split <;> rename_i heq <;> rw [heq] at hens <;> exact ⟨rfl, hens.1, hens.2.1, hens.2.2⟩

theorem cacheEnsureHisparseSlot_samePools : SamePools s (s.cacheEnsureHisparseSlot seqId).2 := by
  have hens : (s.cache.ensureHisparseSlot s.dp seqId).2.hbmPools = s.cache.hbmPools ∧
      (s.cache.ensureHisparseSlot s.dp seqId).2.hostPools = s.cache.hostPools ∧
      (s.cache.ensureHisparseSlot s.dp seqId).2.pendingSwapInTasks = s.cache.pendingSwapInTasks := by
    unfold CacheState.ensureHisparseSlot
    split
    · exact ⟨rfl, rfl, rfl⟩
    · split <;> exact ⟨rfl, rfl, rfl⟩
  unfold cacheEnsureHisparseSlot
  split
  case isFalse => exact .refl s
  case isTrue =>
    split <;> rename_i heq <;> rw [heq] at hens <;> exact ⟨rfl, hens.1, hens.2.1, hens.2.2⟩

theorem cacheEnsureCompressedPages_samePools (neededTokens : ℤ) :
    SamePools s (s.cacheEnsureCompressedPages seqId neededTokens).2 := by
  unfold cacheEnsureCompressedPages CacheState.ensureCompressedPages
  split
  case isTrue => exact .refl s
  case isFalse =>
    split <;> rename_i heq <;> obtain ⟨-, rfl⟩ := Prod.mk.inj heq <;> exact ⟨rfl, rfl, rfl, rfl⟩

/-- Slots and pages are no blocks. -/
theorem cacheEnsureSlotsAndPages_samePools (neededTokens : ℤ) :
    SamePools s (s.cacheEnsureSlotsAndPages seqId neededTokens).2 := by
  have hstate := s.cacheEnsureStateSlot_samePools seqId
  unfold cacheEnsureSlotsAndPages
  split
  case h_1 e s₁ heq =>
    rw [heq] at hstate
    exact hstate
  case h_2 s₁ heq =>
    rw [heq] at hstate
    have hhisparse := hstate.trans (s₁.cacheEnsureHisparseSlot_samePools seqId)
    split
    case h_1 e s₂ heq₂ =>
      rw [heq₂] at hhisparse
      exact hhisparse
    case h_2 s₂ heq₂ =>
      rw [heq₂] at hhisparse
      exact hhisparse.trans (s₂.cacheEnsureCompressedPages_samePools seqId neededTokens)

theorem finishAdmission_samePools (master : ℕ) (fullLen cached : ℤ) :
    SamePools s (s.finishAdmission seqId master fullLen cached).2 := by
  unfold finishAdmission
  dsimp only
  have hens := cacheEnsureSlotsAndPages_samePools (s.updateSeq seqId (fun seq =>
    if s.config.mode = .decode then { seq with activeGroupId := master }
    else { seq with activeGroupId := master, migrateGroupId := master })) seqId fullLen
  split
  case h_1 e s₁ heq =>
    rw [heq] at hens
    exact ⟨hens.config, hens.hbmPools, hens.hostPools, hens.swapIns⟩
  case h_2 s₁ heq =>
    rw [heq] at hens
    split <;> exact ⟨hens.config, hens.hbmPools, hens.hostPools, hens.swapIns⟩

end Scheduler

/-! ## One step -/

namespace PoolRule

variable {config : SchedulerConfig} {K : CacheState → Prop} {s s' : Scheduler} {seqId dpIdx : ℕ}

theorem cachePrepareHostSwapOut (hK : PoolRule config K) (h : PoolInv config K s) :
    PoolInv config K (s.cachePrepareHostSwapOut seqId).2 := by
  unfold Scheduler.cachePrepareHostSwapOut
  split
  case isTrue => exact h
  case isFalse =>
    split
    case h_1 => exact h
    case h_2 d groupId _ =>
      dsimp only
      split
      case isTrue => exact h
      case isFalse =>
        split
        case h_1 e c heq => exact ⟨h.config_eq, hK.ensureHostBlocks _ _ _ _ _ _ heq h.pools⟩
        case h_2 hostBlocks c heq =>
          have hens : PoolInv config K (s.setCache c) := ⟨h.config_eq, hK.ensureHostBlocks _ _ _ _ _ _ heq h.pools⟩
          exact hK.same hens ⟨rfl, rfl, rfl, rfl⟩

/-- Releasing a sequence gives blocks back and takes none. -/
theorem release (hK : PoolRule config K) (h : PoolInv config K s) : PoolInv config K (s.releaseSeq seqId) := by
  refine ⟨h.config_eq, ?_⟩
  have hrelease := hK.releaseSeq s.cache seqId h.pools
  rw [← h.config_eq] at hrelease
  exact hrelease

/-- Preemption is a write-back to the host, then a release. -/
theorem preemptImpl (hK : PoolRule config K) (h : PoolInv config K s) :
    PoolInv config K (s.preemptImpl dpIdx seqId) := by
  have hrequeue : PoolInv config K (s.updateSeq seqId Sequence.requeue) := hK.same h ⟨rfl, rfl, rfl, rfl⟩
  have hswap : PoolInv config K ((s.updateSeq seqId Sequence.requeue).cachePrepareHostSwapOut seqId).2 :=
    hK.cachePrepareHostSwapOut hrequeue
  unfold Scheduler.preemptImpl
  split
  case h_1 s₁ heq =>
    rw [heq] at hswap
    exact hK.same hswap ⟨rfl, rfl, rfl, rfl⟩
  case h_2 s₁ heq =>
    rw [heq] at hswap
    exact hK.same (hK.release hswap) ⟨rfl, rfl, rfl, rfl⟩

/-- An admission keeps the rule, whether it succeeds or stops half way. -/
theorem tryAllocatePrefill (hK : PoolRule config K) (h : PoolInv config K s) (batchSeqs batchTokens : ℕ → ℤ) :
    PoolInv config K (s.tryAllocatePrefill seqId dpIdx batchSeqs batchTokens).2 := by
  have hprep : PoolInv config K (s.prepareAdmission seqId dpIdx batchSeqs batchTokens).2 :=
    hK.prepareAdmission h batchSeqs batchTokens
  unfold Scheduler.tryAllocatePrefill
  split
  case h_1 s₁ heq =>
    rw [heq] at hprep
    exact hprep
  case h_2 a s₁ heq =>
    rw [heq] at hprep
    have hreserve : PoolInv config K (s₁.reserveAdmission seqId dpIdx a).2 := hK.reserveAdmission hprep a
    split
    case h_1 e s₂ hres =>
      rw [hres] at hreserve
      have hcancel : PoolInv config K (s₂.cancelAdmission seqId) := hK.same hreserve ⟨rfl, rfl, rfl, rfl⟩
      unfold preemptOneForAllocation
      cases (s₂.cancelAdmission seqId).preemptVictim dpIdx seqId with
      | none => exact hcancel
      | some victim => exact hK.preemptImpl hcancel
    case h_2 s₂ hres =>
      rw [hres] at hreserve
      have hfinish := hK.same hreserve (s₂.finishAdmission_samePools seqId a.master a.fullLen a.cached)
      split
      case h_1 e s₃ heq₃ =>
        rw [heq₃] at hfinish
        exact hfinish
      case h_2 s₃ heq₃ =>
        rw [heq₃] at hfinish
        exact hfinish

theorem cacheTryRestoreHostBlocks (hK : PoolRule config K) (h : PoolInv config K s) :
    PoolInv config K (s.cacheTryRestoreHostBlocks seqId dpIdx).2 := by
  unfold Scheduler.cacheTryRestoreHostBlocks
  split
  case h_1 => exact h
  case h_2 seq _ =>
    dsimp only
    split
    case isTrue => exact h
    case isFalse =>
      split
      case isTrue => exact h
      case isFalse =>
        split
        case isTrue => exact h
        case isFalse =>
          split
          case h_1 e c heq => exact ⟨h.config_eq, hK.ensureHbmBlocks _ _ _ _ _ _ _ _ heq h.pools⟩
          case h_2 gpuBlocks c heq =>
            have hens : PoolInv config K (s.setCache c) :=
              ⟨h.config_eq, hK.ensureHbmBlocks _ _ _ _ _ _ _ _ heq h.pools⟩
            exact ⟨h.config_eq, hK.congr c _ rfl rfl hens.pools⟩

theorem cacheEnsureBlocksForSeq (hK : PoolRule config K) (h : PoolInv config K s) (isPrefill : Bool) :
    PoolInv config K (s.cacheEnsureBlocksForSeq seqId isPrefill).2 := by
  unfold Scheduler.cacheEnsureBlocksForSeq
  split
  case h_1 => exact h
  case h_2 seq _ =>
    dsimp only
    split
    case isTrue => exact h
    case isFalse =>
      have hplaced : PoolInv config K (s.cacheAssignment seqId).2 := by
        unfold Scheduler.cacheAssignment Scheduler.chooseAssignment
        split
        case h_1 => exact h
        case h_2 => split <;> exact hK.same h ⟨rfl, rfl, rfl, rfl⟩
      generalize s.cacheAssignment seqId = placed at hplaced
      unfold Scheduler.cacheGrowSeq
      dsimp only
      split
      case h_1 e c heq => exact ⟨hplaced.config_eq, hK.ensureHbmBlocks _ _ _ _ _ _ _ _ heq hplaced.pools⟩
      case h_2 blocks c heq =>
        have hens : PoolInv config K (placed.2.setCache c) :=
          ⟨hplaced.config_eq, hK.ensureHbmBlocks _ _ _ _ _ _ _ _ heq hplaced.pools⟩
        have hslots := cacheEnsureSlotsAndPages_samePools
          ((placed.2.setCache c).cacheAttachActiveBlocks seqId placed.1.1
          placed.1.2 blocks) seqId (s.growthTokens seq isPrefill)
        have hattach : PoolInv config K ((placed.2.setCache c).cacheAttachActiveBlocks seqId
          placed.1.1 placed.1.2 blocks) :=
          hK.same hens ⟨rfl, rfl, rfl, rfl⟩
        have hinv := hK.same hattach hslots
        split
        case h_1 e s₂ heq₂ =>
          rw [heq₂] at hinv
          exact hinv
        case h_2 s₂ heq₂ =>
          rw [heq₂] at hinv
          split
          case isTrue => exact hK.same hinv ⟨rfl, rfl, rfl, rfl⟩
          case isFalse => exact hinv

/-! ### Swaps -/

theorem completeHostSwapOut (hK : PoolRule config K) (h : PoolInv config K s) (task : SwapTask) :
    PoolInv config K (s.completeHostSwapOut task) := by
  unfold Scheduler.completeHostSwapOut
  split
  case h_1 => exact h
  case h_2 pending _ =>
    have hremove : ∀ flat, PoolInv config K (s.setCache (s.cache.removeHbmSeq flat task.seqId)) :=
      fun flat => ⟨h.config_eq, hK.removeHbmSeq _ _ _ h.pools⟩
    exact hK.same (hremove (s.flatIdx pending.dpIdx pending.groupId)) ⟨rfl, rfl, rfl, rfl⟩

theorem completeHostSwapInsFrom (hK : PoolRule config K) (h : PoolInv config K s) (flat : ℕ)
    (tasks : List (List SwapTask)) : PoolInv config K (Scheduler.completeHostSwapInsFrom flat tasks s) := by
  induction tasks generalizing flat s with
  | nil => exact h
  | cons group tasks ih =>
    refine ih (List.foldlRecOn group (completeHostSwapIn flat) (motive := PoolInv config K) h ?_) (flat + 1)
    intro s hs task _
    have hremove : PoolInv config K (s.setCache (s.cache.removeHostSeq flat task.seqId)) :=
      ⟨hs.config_eq, hK.removeHostSeq _ _ _ hs.pools⟩
    exact hK.same hremove ⟨rfl, rfl, rfl, rfl⟩

theorem completeSwaps (hK : PoolRule config K) (h : PoolInv config K s) (r : ScheduleResult) :
    PoolInv config K (s.completeSwaps r) := by
  have houts := List.foldlRecOn r.swapOutTasks.flatten Scheduler.completeHostSwapOut (motive := PoolInv config K) h
    fun s hs task _ => hK.completeHostSwapOut hs task
  have hclear : PoolInv config K (s.cacheCompleteHostSwapOuts r.swapOutTasks) := hK.same houts ⟨rfl, rfl, rfl, rfl⟩
  have hins := hK.completeHostSwapInsFrom hclear 0 r.swapInTasks
  exact ⟨hins.config_eq, hK.congr (Scheduler.completeHostSwapInsFrom 0 r.swapInTasks _).cache _ rfl rfl hins.pools⟩

/-! ### Postprocessing -/

theorem commitHbmBlocks (hK : PoolRule config K) (h : PoolInv config K s) (committedTokens : ℤ) :
    PoolInv config K (s.commitHbmBlocks seqId committedTokens) := by
  unfold Scheduler.commitHbmBlocks
  split
  case h_1 => exact h
  case h_2 seq _ =>
    dsimp only
    split
    case isTrue => exact h
    case isFalse => exact ⟨h.config_eq, hK.commitReady _ _ _ _ _ h.pools⟩

theorem postprocessAppend (hK : PoolRule config K) (h : PoolInv config K s) (seq : Sequence) (tokens : List ℤ)
    (logprobs : List ℚ) : PoolInv config K (s.postprocessAppend seqId seq tokens logprobs).2 := by
  unfold Scheduler.postprocessAppend
  dsimp only
  set start := if seq.status = .prefilling then { seq with status := SequenceStatus.running } else seq
  have hstart : PoolInv config K { s with seqTable := Function.update s.seqTable seqId (some start) } :=
    hK.same h ⟨rfl, rfl, rfl, rfl⟩
  have hcommit : PoolInv config K (if start.numTokens = promptTarget start then
      { s with seqTable := Function.update s.seqTable seqId (some start) }.commitHbmBlocks seqId (promptTarget start)
      else { s with seqTable := Function.update s.seqTable seqId (some start) }) := by
    split
    case isTrue => exact hK.commitHbmBlocks hstart _
    case isFalse => exact hstart
  exact hK.same hcommit ⟨rfl, rfl, rfl, rfl⟩

theorem postprocessSeq (hK : PoolRule config K) (h : PoolInv config K s)
    (row : Option (List ℤ)) (logprobs : List ℚ) :
    PoolInv config K (s.postprocessSeq dpIdx seqId row logprobs) := by
  unfold Scheduler.postprocessSeq
  split
  case isTrue => exact h
  case isFalse =>
    split
    case h_1 => exact hK.same h ⟨rfl, rfl, rfl, rfl⟩
    case h_2 tokens =>
      split
      case h_1 => exact h
      case h_2 seq hseq =>
        split
        case isTrue =>
          have hcommit : PoolInv config K (s.commitHbmBlocks seqId seq.numTokens) := hK.commitHbmBlocks h seq.numTokens
          exact hK.same hcommit ⟨rfl, rfl, rfl, rfl⟩
        case isFalse =>
          have happend : PoolInv config K (s.postprocessAppend seqId seq tokens logprobs).2 :=
            hK.postprocessAppend h seq tokens logprobs
          dsimp only
          unfold postprocessPlace
          split
          case isTrue => exact hK.release (hK.same happend ⟨rfl, rfl, rfl, rfl⟩)
          case isFalse =>
            split
            case isTrue => exact hK.same happend ⟨rfl, rfl, rfl, rfl⟩
            case isFalse =>
              have hgrow : PoolInv config K
                ((s.postprocessAppend seqId seq tokens logprobs).2.cacheEnsureBlocksForSeq seqId
                false).2 := hK.cacheEnsureBlocksForSeq happend false
              exact hK.same hgrow ⟨rfl, rfl, rfl, rfl⟩

omit [Xxh3] in
theorem recordCompleteStep_samePools (s : Scheduler) (dpSeqIds : List (List ℕ)) (track : Bool)
    (previous : Finset ℕ) :
    SamePools s (s.recordCompleteStep dpSeqIds track previous).2 := by
  have hcollect : ∀ (ids : List ℕ) (s : Scheduler), SamePools s (collectSequenceEvents track previous ids s).2 := by
    intro ids
    induction ids with
    | nil => exact .refl
    | cons id ids ih =>
      intro s
      unfold collectSequenceEvents
      split
      case isTrue => exact ih s
      case isFalse =>
        split
        case h_1 => exact ih s
        case h_2 =>
          have hone : SamePools s (s.updateSeq id (fun seq => { seq with visionSlots := [] })) :=
            ⟨rfl, rfl, rfl, rfl⟩
          exact hone.trans (ih _)
  have hclear : ∀ (ids : List ℕ) (s : Scheduler), SamePools s (ids.foldl clearFinishedMetricState s) := by
    intro ids
    induction ids with
    | nil => exact .refl
    | cons id ids ih =>
      intro s
      have hone : SamePools s (s.clearFinishedMetricState id) := ⟨rfl, rfl, rfl, rfl⟩
      exact hone.trans (ih _)
  exact (hcollect _ s).trans (hclear _ _)

omit [Xxh3] in
theorem routeCandidates_samePools (s : Scheduler) (seqId : ℕ) : SamePools s (s.routeCandidates seqId).2 := by
  unfold routeCandidates
  dsimp only
  split
  case h_4 =>
    split
    case isTrue => exact .refl s
    case isFalse =>
      split
      case h_1 => exact .refl s
      case h_2 => split <;> exact ⟨rfl, rfl, rfl, rfl⟩
  all_goals exact ⟨rfl, rfl, rfl, rfl⟩

/-! ## Runs -/

/-- The rule along the steps of one call … -/
theorem stepRule (hK : PoolRule config K) (W : PrefillState.RankTest) (D : DecodeTest) (P : PostTest) (L : Finset ℕ) :
    StepRule W D P L (PoolInv config K) where
  frame _ _ hconfig hcache _ h := ⟨hconfig.trans h.config_eq, hcache ▸ h.pools⟩
  route s id h := hK.same h (routeCandidates_samePools s id)
  note _ _ _ h := hK.same h ⟨rfl, rfl, rfl, rfl⟩
  mark _ _ h := hK.same h ⟨rfl, rfl, rfl, rfl⟩
  advance _ _ _ _ h := hK.same h ⟨rfl, rfl, rfl, rfl⟩
  restore _ _ _ h _ _ _ := hK.cacheTryRestoreHostBlocks h
  tryOn _ _ _ h _ _ _ := hK.tryAllocatePrefill h _ _
  grow _ _ _ h _ _ := hK.cacheEnsureBlocksForSeq h false
  preempt _ _ _ h _ := hK.preemptImpl h
  dummies _ _ he h := ⟨he.config.trans h.config_eq, he.cache ▸ h.pools⟩
  swaps _ r h := hK.completeSwaps h r
  post _ _ _ row logprobs h _ _ _ := hK.postprocessSeq h row logprobs
  report s dpSeqIds track previous h := hK.same h (recordCompleteStep_samePools s dpSeqIds track previous)

/-- … and along the operations of the engine. -/
theorem engineRule (hK : PoolRule config K) (W : PrefillState.RankTest) (D : DecodeTest) (P : PostTest) :
    EngineRule W D P config (fun _ => PoolInv config K) where
  config_eq _ _ h := h.config_eq
  init := ⟨rfl, hK.init⟩
  step L _ := hK.stepRule W D P L
  add _ s seq _ _ h := by
    have hadd := addSequence_spec s seq
    exact ⟨hadd.config.trans h.config_eq, hadd.cache ▸ h.pools⟩
  abort _ s id hfound h := by
    have hrelease : PoolInv config K (s.releaseSeq id) := hK.release h
    unfold abortImpl at hfound ⊢
    split
    case isTrue => exact hK.same hrelease ⟨rfl, rfl, rfl, rfl⟩
    case isFalse hnot => simp [hnot] at hfound
  free _ s id hmig h := by
    have hrelease : PoolInv config K (s.releaseSeq id) := hK.release h
    unfold freeToBeMigratedIdsImpl
    rw [List.foldl_cons, List.foldl_nil]
    unfold freeToBeMigrated
    rw [if_pos hmig]
    exact hK.same hrelease ⟨rfl, rfl, rfl, rfl⟩
  toggle _ _ _ h := ⟨h.config_eq, hK.setPrefixCachingEnabled _ _ h.pools⟩

end PoolRule

/-! ## In the middle of a `schedule` call -/

/-- The states in which the admission loop turns to a rank: after the continuations, after routing and after other ranks
and sequences have been tried. -/
inductive Attempts (config : SchedulerConfig) : PrefillState → Prop
  | continued {x : EngineState} (hx : Transition.Reachable (engineSystem config) Transition.always x) :
    Attempts config (PrefillState.init { x.sched with currentStep := x.sched.currentStep + 1 }).continueAll
  | routed {st : PrefillState} (seqId : ℕ) (h : Attempts config st) :
    Attempts config (st.withSched (st.sched.routeCandidates seqId).2)
  | tried {st st' : PrefillState} {seqId dpIdx : ℕ} {placed : Bool} (h : Attempts config st)
    (htry : st.tryRank seqId dpIdx = (.ok placed, st')) : Attempts config st'

/-- The loop over the ranks only passes such states. -/
theorem Attempts.tryCandidates {config : SchedulerConfig} {seqId : ℕ} {ranks : List ℕ}
    {st st' : PrefillState} {placed : Bool}
    (h : Attempts config st) (hrun : PrefillState.tryCandidates seqId ranks st = (.ok placed, st')) :
      Attempts config st' := by
  induction ranks generalizing st with
  | nil =>
    cases hrun
    exact h
  | cons dpIdx ranks ih =>
    rw [PrefillState.tryCandidates_cons] at hrun
    split at hrun
    case h_1 st₁ heq => exact ih (h.tried heq) hrun
    case h_2 => exact h.tried hrun

theorem Attempts.admitLoop {config : SchedulerConfig} {fuel : ℕ} {st st' : PrefillState} (h : Attempts config st)
    (hrun : PrefillState.admitLoop fuel st = (.ok (), st')) : Attempts config st' := by
  induction fuel generalizing st with
  | zero =>
    cases hrun
    exact h
  | succ fuel ih =>
    rw [PrefillState.admitLoop] at hrun
    split at hrun
    case h_1 =>
      cases hrun
      exact h
    case h_2 seqId _ =>
      dsimp only at hrun
      split at hrun
      case h_1 => cases hrun
      case h_2 st₁ heq =>
        cases hrun
        exact (h.routed seqId).tryCandidates heq
      case h_3 st₁ heq => exact ih ((h.routed seqId).tryCandidates heq) hrun

/-- Invariants of the pools hold there, too. -/
theorem PoolRule.attempts {config : SchedulerConfig} {K : CacheState → Prop}
    (hK : PoolRule config K) {st : PrefillState}
    (h : Attempts config st) : PoolInv config K st.sched := by
  have hstep (L : Finset ℕ) : StepRule (fun _ _ _ => true) (fun _ _ _ => true) (fun _ _ => true)
    L (PoolInv config K) :=
    hK.stepRule _ _ _ L
  induction h with
  | continued hx =>
    have hx := ((hK.engineRule _ _ _).holds hx).holds
    exact PrefillState.continueAll_rule (I := fun st => PoolInv config K st.sched) (H := fun _ => True)
      (fun _ _ _ _ _ => trivial) (fun st _ hst => (hstep ∅).frame st.sched _ rfl rfl rfl hst)
      (fun _ _ _ hst _ => (hstep ∅).continueSeq hst) ⟨hx.config_eq, hx.pools⟩
  | routed seqId _ ih => exact (hstep ∅).route _ seqId ih
  | @tried st st' seqId dpIdx placed _ htry ih =>
    have hnext : PoolInv config K (st.tryRank seqId dpIdx).2.sched :=
      (hstep {seqId}).tryRank ih (Finset.mem_singleton_self seqId) rfl
    rwa [htry] at hnext

end NanoEngine
