import NanoEngine.Failures.Admission

/-!
# NanoEngine.Failures.ColdPages — swap-outs beside HiSparse pages

With MLA HiSparse the block ids of the scheduler name pages of the host cold store, and the host pool of the scheduler
hands out indices into the same store.

* `SwapOutsSpare s s'`: the swap-outs queued between `s` and `s'` write to no page of another live sequence.
* `PreemptionSpares`: the next blocks of the host's free list are no pages of another live sequence.
* `swapOuts_spare_iff`: along a `schedule` call the first holds at every turn exactly when the second does at every
  preemption, and nothing is queued elsewhere.
-/

namespace NanoEngine

open Scheduler Transition

/-- The configurations in which block ids name pages of the host cold store: MLA HiSparse requires a decode engine, and
`allocate_kvcache` reports as many host blocks as KV blocks. -/
structure SchedulerConfig.ColdPages (config : SchedulerConfig) : Prop where
  mode : config.mode = .decode
  mla : config.cachePlan.mla = true
  hisparse : config.cachePlan.hisparse = true
  hostBlocks : config.numHostKvcacheBlocks = config.numKvcacheBlocks

namespace Scheduler

/-! ## One swap-out -/

/-- The page is in the active table of another live sequence of the rank. -/
def OwnedElsewhere (s : Scheduler) (flat seqId page : ℕ) : Prop :=
  ∃ id seq, id ≠ seqId ∧ s.unfinished id = true ∧ s.cache.assignedFlat id s.group = some flat ∧
    s.seqTable id = some seq ∧
    page ∈ seq.activeBlockTable

/-- The swap-outs of a rank that are queued between `s` and `s'`. -/
def newSwapOuts (s s' : Scheduler) (flat : ℕ) : List SwapTask :=
  (s'.cache.pendingSwapOutTasks flat).drop (s.cache.pendingSwapOutTasks flat).length

def SwapOutsSpare (s s' : Scheduler) : Prop :=
  ∀ flat, ∀ task ∈ newSwapOuts s s' flat, ∀ page ∈ task.toBlocks, ¬ s'.OwnedElsewhere flat task.seqId page

/-- The swap-out that a preemption of the sequence queues: `none` without host blocks, while one is pending, without a
rank or a table, and when the host pool has too few free blocks; the host blocks are the next ones of its free list. -/
def swapOutOf (s : Scheduler) (seqId : ℕ) : Option (ℕ × SwapTask) :=
  if s.config.numHostKvcacheBlocks ≤ 0 ∨ (s.cache.pendingHostSwaps seqId).isSome then none
  else (s.cache.seqAssignment seqId).bind fun a =>
    let flat := s.flatIdx a.1 a.2
    let gpuBlocks := ((s.seqTable seqId).map (·.activeBlockTable)).getD []
    let pool := s.cache.hostPools flat
    let needed := pool.numBlocksForTokens (gpuBlocks.length * s.config.blockSize)
    if gpuBlocks = [] ∨ (pool.table seqId).length + pool.freeBlocks.length < needed then none
    else some (flat, ⟨seqId, gpuBlocks,
      pool.table seqId ++ pool.freeBlocks.take (needed - (pool.table seqId).length)⟩)

/-- The host blocks that a preemption of the sequence would use are no pages of another live sequence. -/
def PreemptionSpares (s : Scheduler) (seqId : ℕ) : Prop :=
  ∀ flat task, s.swapOutOf seqId = some (flat, task) →
    ∀ page ∈ task.toBlocks, ¬ s.OwnedElsewhere flat seqId page

/-- Nothing is queued for the host between `s` and `s'`. -/
structure SameSwapOuts (s s' : Scheduler) : Prop where
  config : s'.config = s.config
  swapOuts : s'.cache.pendingSwapOutTasks = s.cache.pendingSwapOutTasks

variable {s s' s'' : Scheduler} {seqId dpIdx : ℕ}

theorem SameSwapOuts.refl (s : Scheduler) : SameSwapOuts s s := ⟨rfl, rfl⟩

theorem SameSwapOuts.trans (h : SameSwapOuts s s') (k : SameSwapOuts s' s'') : SameSwapOuts s s'' :=
  ⟨k.config.trans h.config, k.swapOuts.trans h.swapOuts⟩

theorem SameSwapOuts.spare (h : SameSwapOuts s s') : SwapOutsSpare s s' := by
  intro flat task htask
  unfold newSwapOuts at htask
  rw [h.swapOuts, List.drop_length] at htask
  cases htask

theorem SameSwapOuts.spare_iff (h : SameSwapOuts s s') : SwapOutsSpare s s'' ↔ SwapOutsSpare s' s'' := by
  unfold SwapOutsSpare newSwapOuts
  rw [h.swapOuts]

variable [Xxh3]

/-- `cache_prepare_host_swap_out` queues `swapOutOf`. -/
theorem cachePrepareHostSwapOut_swapOuts (s : Scheduler) (seqId flat : ℕ) :
    (s.cachePrepareHostSwapOut seqId).2.cache.pendingSwapOutTasks flat =
      s.cache.pendingSwapOutTasks flat ++
        ((s.swapOutOf seqId).toList.filter (fun p => decide (p.1 = flat))).map (·.2) := by
  unfold cachePrepareHostSwapOut swapOutOf
  by_cases hguard : s.config.numHostKvcacheBlocks ≤ 0 ∨ (s.cache.pendingHostSwaps seqId).isSome = true
  · simp [hguard]
  · rw [if_neg hguard, if_neg hguard]
    cases hassign : s.cache.seqAssignment seqId with
    | none => simp
    | some a =>
      obtain ⟨d, g⟩ := a
      dsimp only [Option.bind_some]
      set gpuBlocks := ((s.seqTable seqId).map (·.activeBlockTable)).getD []
      set pool := s.cache.hostPools (s.flatIdx d g) with hpool
      by_cases hempty : gpuBlocks = []
      · simp [hempty]
      · rw [if_neg hempty]
        unfold CacheState.ensureHostBlocks
        rw [← hpool]
        dsimp only
        by_cases hroom : (pool.table seqId).length + pool.freeBlocks.length <
            pool.numBlocksForTokens (gpuBlocks.length * s.config.blockSize)
        · obtain ⟨e, p', hens⟩ := BlockPool.ensureBlocks_short hroom
          simp [hens, hempty, hroom, setCache, CacheState.setHostPool]
        · obtain ⟨p', hens⟩ := BlockPool.ensureBlocks_enough [] (.inr rfl) (Nat.le_of_not_lt hroom)
          by_cases hflat : s.flatIdx d g = flat
          · subst hflat
            simp [hens, hempty, hroom, setCache, updateSeq, CacheState.setHostPool, CacheState.pushPendingSwapOut]
          · simp [hens, hempty, hroom, hflat, setCache, updateSeq, CacheState.setHostPool,
              CacheState.pushPendingSwapOut,
              Function.update_of_ne (Ne.symm hflat)]

/-- Nobody but the victim changes hands in a preemption. -/
theorem preemptImpl_ownedElsewhere (s : Scheduler) (dpIdx seqId flat page : ℕ) :
    (s.preemptImpl dpIdx seqId).OwnedElsewhere flat seqId page ↔ s.OwnedElsewhere flat seqId page := by
  -- the others keep their entry and their rank
  have hkept : ∀ id, id ≠ seqId → (s.preemptImpl dpIdx seqId).seqTable id = s.seqTable id ∧
      (s.preemptImpl dpIdx seqId).cache.seqAssignment id = s.cache.seqAssignment id := by
    intro id hid
    have hpart := (s.updateSeq seqId Sequence.requeue).cachePrepareHostSwapOut_same seqId
    have hothers := ((s.updateSeq seqId Sequence.requeue).cachePrepareHostSwapOut_frame seqId).others id hid
    have hassign := congrArg SlotPart.seqAssignment hpart.slotPart
    have hupdate : (s.updateSeq seqId Sequence.requeue).seqTable id = s.seqTable id := Function.update_of_ne hid _ _
    dsimp only [CacheState.slotPart] at hassign
    unfold preemptImpl
    split
    case h_1 s' heq =>
      rw [heq] at hothers hassign
      exact ⟨hothers.trans hupdate, congrFun hassign id⟩
    case h_2 s' heq =>
      rw [heq] at hothers hassign
      refine ⟨hothers.trans hupdate, ?_⟩
      show (s'.cache.releaseSeq seqId s'.group).seqAssignment id = _
      rw [CacheState.releaseSeq_seqAssignment, Function.update_of_ne hid]
      exact congrFun hassign id
  have hgroup : (s.preemptImpl dpIdx seqId).group = s.group :=
    congrArg SchedulerConfig.group (preemptImpl_spec s dpIdx seqId).config
  unfold OwnedElsewhere CacheState.assignedFlat unfinished
  rw [hgroup]
  constructor
  · rintro ⟨id, seq, hid, hunf, hflat, hseq, hmem⟩
    rw [(hkept id hid).1] at hunf hseq
    rw [(hkept id hid).2] at hflat
    exact ⟨id, seq, hid, hunf, hflat, hseq, hmem⟩
  · rintro ⟨id, seq, hid, hunf, hflat, hseq, hmem⟩
    rw [← (hkept id hid).1] at hunf hseq
    rw [← (hkept id hid).2] at hflat
    exact ⟨id, seq, hid, hunf, hflat, hseq, hmem⟩

theorem preemptImpl_swapOuts (s : Scheduler) (dpIdx seqId flat : ℕ) :
    (s.preemptImpl dpIdx seqId).cache.pendingSwapOutTasks flat =
      s.cache.pendingSwapOutTasks flat ++
        ((s.swapOutOf seqId).toList.filter (fun p => decide (p.1 = flat))).map (·.2) := by
  have hswap := (s.updateSeq seqId Sequence.requeue).cachePrepareHostSwapOut_swapOuts seqId flat
  have hsame : (s.updateSeq seqId Sequence.requeue).swapOutOf seqId = s.swapOutOf seqId := by
    have htable : ((s.updateSeq seqId Sequence.requeue).seqTable seqId).map (·.activeBlockTable) =
        (s.seqTable seqId).map (·.activeBlockTable) := by
      simp only [updateSeq, Function.update_self, Option.map_map]
      rfl
    unfold swapOutOf
    rw [htable]
    rfl
  rw [hsame] at hswap
  unfold preemptImpl
  split
  case h_1 s' heq =>
    rw [heq] at hswap
    exact hswap
  case h_2 s' heq =>
    rw [heq] at hswap
    show (s'.cache.releaseSeq seqId s'.group).pendingSwapOutTasks flat = _
    rw [(s'.cache.releaseSeq_pending seqId s'.group).2.1]
    exact hswap

/-- **A preemption overwrites no page of another live sequence** exactly when the host blocks it would use are none. -/
theorem preemptImpl_spare_iff (s : Scheduler) (dpIdx seqId : ℕ) :
    SwapOutsSpare s (s.preemptImpl dpIdx seqId) ↔ s.PreemptionSpares seqId := by
  have hnew : ∀ flat, newSwapOuts s (s.preemptImpl dpIdx seqId) flat =
      ((s.swapOutOf seqId).toList.filter (fun p => decide (p.1 = flat))).map (·.2) := by
    intro flat
    unfold newSwapOuts
    rw [preemptImpl_swapOuts, List.drop_left]
  have hid : ∀ flat task, s.swapOutOf seqId = some (flat, task) → task.seqId = seqId := by
    intro flat task htask
    unfold swapOutOf at htask
    split at htask
    case isTrue => cases htask
    case isFalse =>
      obtain ⟨a, -, ha⟩ := Option.bind_eq_some_iff.1 htask
      dsimp only at ha
      split at ha
      case isTrue => cases ha
      case isFalse =>
        cases ha
        rfl
  -- the only new task is that of the victim
  unfold SwapOutsSpare PreemptionSpares
  simp only [hnew]
  constructor
  · intro h flat task htask page hpage
    have hmem : task ∈ ((s.swapOutOf seqId).toList.filter (fun p => decide (p.1 = flat))).map (·.2) := by
      simp [htask]
    have hspare := h flat task hmem page hpage
    rw [hid flat task htask, preemptImpl_ownedElsewhere] at hspare
    exact hspare
  · intro h flat task hmem page hpage
    obtain ⟨⟨flat', task'⟩, hin, rfl⟩ := List.mem_map.1 hmem
    rw [List.mem_filter, Option.mem_toList] at hin
    obtain ⟨htask, hflat⟩ := hin
    obtain rfl : flat' = flat := by simpa using hflat
    have hspare := h flat' task' htask page hpage
    rw [hid flat' task' htask, preemptImpl_ownedElsewhere]
    exact hspare

/-! ## What queues nothing on a decode engine -/

section decode

variable (hmode : s.config.mode = .decode)

include hmode in
theorem cacheEnsureGroupBlocks_sameSwapOuts (seqId dpIdx groupId : ℕ) (tokens : ℤ) (setMigrate : Bool) :
    SameSwapOuts s (s.cacheEnsureGroupBlocks seqId dpIdx groupId tokens setMigrate).2 := by
  unfold cacheEnsureGroupBlocks
  simp only [hmode, ne_eq, not_true_eq_false, decide_false, Bool.and_false, Bool.false_and,
    Bool.false_eq_true, if_false]
  split
  case h_1 e c heq =>
    obtain ⟨-, rfl⟩ := Prod.mk.inj heq
    exact ⟨rfl, rfl⟩
  case h_2 blocks c heq =>
    obtain ⟨-, rfl⟩ := Prod.mk.inj heq
    unfold cacheAttachBlocks
    dsimp only
    split <;> exact ⟨rfl, rfl⟩

include hmode in
theorem ensureDispatched_sameSwapOuts (seqId dpIdx gid : ℕ) (dispatch : List ℤ) :
    SameSwapOuts s (ensureDispatched seqId dpIdx gid dispatch s).2 := by
  induction dispatch generalizing gid s with
  | nil => exact .refl s
  | cons count dispatch ih =>
    rw [ensureDispatched]
    split
    case isTrue =>
      have h := cacheEnsureGroupBlocks_sameSwapOuts hmode seqId dpIdx gid count (decide (s.config.mode ≠ .decode))
      split
      case h_1 e s' heq =>
        rw [heq] at h
        exact h
      case h_2 blocks s' heq =>
        rw [heq] at h
        exact h.trans (ih (h.config ▸ hmode) (gid + 1))
    case isFalse => exact ih hmode (gid + 1)

omit [Xxh3] in
theorem cacheEnsureSlotsAndPages_sameSwapOuts (s : Scheduler) (seqId : ℕ) (neededTokens : ℤ) :
    SameSwapOuts s (s.cacheEnsureSlotsAndPages seqId neededTokens).2 := by
  have hstate : ∀ s : Scheduler, SameSwapOuts s (s.cacheEnsureStateSlot seqId).2 := by
    intro s
    have hens : (s.cache.ensureStateSlot s.dp seqId).2.pendingSwapOutTasks = s.cache.pendingSwapOutTasks := by
      unfold CacheState.ensureStateSlot
      split
      · rfl
      · split <;> rfl
    unfold cacheEnsureStateSlot
    split
    case isFalse => exact .refl s
    case isTrue => split <;> rename_i heq <;> rw [heq] at hens <;> exact ⟨rfl, hens⟩
  have hhisparse : ∀ s : Scheduler, SameSwapOuts s (s.cacheEnsureHisparseSlot seqId).2 := by
    intro s
    have hens : (s.cache.ensureHisparseSlot s.dp seqId).2.pendingSwapOutTasks = s.cache.pendingSwapOutTasks := by
      unfold CacheState.ensureHisparseSlot
      split
      · rfl
      · split <;> rfl
    unfold cacheEnsureHisparseSlot
    split
    case isFalse => exact .refl s
    case isTrue => split <;> rename_i heq <;> rw [heq] at hens <;> exact ⟨rfl, hens⟩
  have hpages : ∀ s : Scheduler, SameSwapOuts s (s.cacheEnsureCompressedPages seqId neededTokens).2 := by
    intro s
    unfold cacheEnsureCompressedPages CacheState.ensureCompressedPages
    split
    case isTrue => exact .refl s
    case isFalse => split <;> rename_i heq <;> obtain ⟨-, rfl⟩ := Prod.mk.inj heq <;> exact ⟨rfl, rfl⟩
  -- the three calls one after the other, each up to its error
  have h₁ := hstate s
  unfold cacheEnsureSlotsAndPages
  split
  case h_1 e s₁ heq =>
    rw [heq] at h₁
    exact h₁
  case h_2 s₁ heq =>
    rw [heq] at h₁
    have h₂ := h₁.trans (hhisparse s₁)
    split
    case h_1 e s₂ heq₂ =>
      rw [heq₂] at h₂
      exact h₂
    case h_2 s₂ heq₂ =>
      rw [heq₂] at h₂
      exact h₂.trans (hpages s₂)

include hmode in
/-- A decode engine does not ask the prefix cache. -/
theorem prepareAdmission_sameSwapOuts (seqId dpIdx : ℕ) (batchSeqs batchTokens : ℕ → ℤ) :
    SameSwapOuts s (s.prepareAdmission seqId dpIdx batchSeqs batchTokens).2 := by
  have hcached : ∀ seq master, (s.admissionCached seqId seq dpIdx master).2 = s := by
    intro seq master
    unfold admissionCached asksPrefixCache
    simp [hmode]
  rcases h : s.prepareAdmission seqId dpIdx batchSeqs batchTokens with ⟨_ | a, s'⟩
  · rcases prepareAdmission_none h with rfl | ⟨seq, master, -, rfl⟩
    · exact .refl _
    · rw [hcached]
      exact .refl s
  · obtain ⟨seq, -, rfl⟩ := prepareAdmission_some h
    rw [hcached]
    exact .refl s

omit [Xxh3] in
theorem finishAdmission_sameSwapOuts (s : Scheduler) (seqId master : ℕ) (fullLen cached : ℤ) :
    SameSwapOuts s (s.finishAdmission seqId master fullLen cached).2 := by
  unfold finishAdmission
  dsimp only
  have hens := cacheEnsureSlotsAndPages_sameSwapOuts (s.updateSeq seqId (fun seq =>
    if s.config.mode = .decode then { seq with activeGroupId := master }
    else { seq with activeGroupId := master, migrateGroupId := master })) seqId fullLen
  split
  case h_1 e s₁ heq =>
    rw [heq] at hens
    exact ⟨hens.config, hens.swapOuts⟩
  case h_2 s₁ heq =>
    rw [heq] at hens
    split <;> exact ⟨hens.config, hens.swapOuts⟩

include hmode in
/-- Up to the point at which a sequence is preempted, a try queues nothing. -/
theorem undone_sameSwapOuts (seqId dpIdx : ℕ) (batchSeqs batchTokens : ℕ → ℤ) :
    SameSwapOuts s (s.undone seqId dpIdx batchSeqs batchTokens) := by
  have hprepare := prepareAdmission_sameSwapOuts hmode seqId dpIdx batchSeqs batchTokens
  unfold undone failedAdmission tryAllocatePrefill
  rcases hprep : s.prepareAdmission seqId dpIdx batchSeqs batchTokens with ⟨_ | a, s₁⟩ <;> rw [hprep] at hprepare
  · exact hprepare
  · dsimp only at hprepare ⊢
    have hbegin : SameSwapOuts s (s₁.beginAdmission seqId dpIdx a.master a.cached (a.cached + a.newTokens)
        (s₁.computeDispatch dpIdx a.master a.fullLen)) := hprepare.trans ⟨rfl, rfl⟩
    have hreserve := hbegin.trans (ensureDispatched_sameSwapOuts (hbegin.config ▸ hmode) seqId dpIdx 0
      (s₁.computeDispatch dpIdx a.master a.fullLen))
    change SameSwapOuts s (s₁.reserveAdmission seqId dpIdx a).2 at hreserve
    rcases hres : s₁.reserveAdmission seqId dpIdx a with ⟨e | u, s₂⟩ <;> rw [hres] at hreserve
    · exact hreserve.trans ⟨rfl, rfl⟩
    · have hfinish := hreserve.trans (s₂.finishAdmission_sameSwapOuts seqId a.master a.fullLen a.cached)
      dsimp only
      split <;> rename_i heq <;> rw [heq] at hfinish <;> exact hfinish

/-! ## Turns -/

theorem cacheTryRestoreHostBlocks_sameSwapOuts (s : Scheduler) (seqId dpIdx : ℕ) :
    SameSwapOuts s (s.cacheTryRestoreHostBlocks seqId dpIdx).2 := by
  unfold cacheTryRestoreHostBlocks
  split
  case h_1 => exact .refl s
  case h_2 seq _ =>
    dsimp only
    split
    case isTrue => exact .refl s
    case isFalse =>
      split
      case isTrue => exact .refl s
      case isFalse =>
        split
        case isTrue => exact .refl s
        case isFalse =>
          unfold CacheState.ensureHbmBlocks
          split <;> rename_i heq <;> obtain ⟨-, rfl⟩ := Prod.mk.inj heq <;> exact ⟨rfl, rfl⟩

theorem cacheEnsureBlocksForSeq_sameSwapOuts (s : Scheduler) (seqId : ℕ) (isPrefill : Bool) :
    SameSwapOuts s (s.cacheEnsureBlocksForSeq seqId isPrefill).2 := by
  unfold cacheEnsureBlocksForSeq
  split
  case h_1 => exact .refl s
  case h_2 seq _ =>
    dsimp only
    split
    case isTrue => exact .refl s
    case isFalse =>
      have hplaced : SameSwapOuts s (s.cacheAssignment seqId).2 := by
        unfold cacheAssignment chooseAssignment
        split
        case h_1 => exact .refl s
        case h_2 => split <;> exact ⟨rfl, rfl⟩
      generalize s.cacheAssignment seqId = placed at hplaced
      unfold cacheGrowSeq CacheState.ensureHbmBlocks
      dsimp only
      split
      case h_1 e c heq =>
        obtain ⟨-, rfl⟩ := Prod.mk.inj heq
        exact hplaced.trans ⟨rfl, rfl⟩
      case h_2 blocks c heq =>
        have hgrown : SameSwapOuts placed.2 ((placed.2.setCache c).cacheAttachActiveBlocks seqId placed.1.1 placed.1.2
            blocks) := by
          obtain ⟨-, rfl⟩ := Prod.mk.inj heq
          exact ⟨rfl, rfl⟩
        have hslots := (hplaced.trans hgrown).trans (cacheEnsureSlotsAndPages_sameSwapOuts _ seqId
          (s.growthTokens seq isPrefill))
        split
        case h_1 e s₂ heq₂ =>
          rw [heq₂] at hslots
          exact hslots
        case h_2 s₂ heq₂ =>
          rw [heq₂] at hslots
          split
          case isTrue => exact hslots.trans ⟨rfl, rfl⟩
          case isFalse => exact hslots

omit [Xxh3] in
theorem routeCandidates_sameSwapOuts (s : Scheduler) (seqId : ℕ) : SameSwapOuts s (s.routeCandidates seqId).2 := by
  unfold routeCandidates
  dsimp only
  split
  case h_4 =>
    split
    case isTrue => exact .refl s
    case isFalse =>
      split
      case h_1 => exact .refl s
      case h_2 => split <;> exact ⟨rfl, rfl⟩
  all_goals exact ⟨rfl, rfl⟩

end decode

/-! ## The turns of a call -/

theorem tryAllocatePrefill_preempts {batchSeqs batchTokens : ℕ → ℤ} {victim : ℕ}
    (h : s.admissionVictim seqId dpIdx batchSeqs batchTokens = some victim) :
    s.tryAllocatePrefill seqId dpIdx batchSeqs batchTokens =
      (.ok none, (s.undone seqId dpIdx batchSeqs batchTokens).preemptImpl dpIdx victim) := by
  have hsnd := s.tryAllocatePrefill_snd seqId dpIdx batchSeqs batchTokens
  rw [h, Option.elim_some] at hsnd
  refine Prod.ext ?_ hsnd
  unfold admissionVictim failedAdmission at h
  unfold tryAllocatePrefill
  rcases hprep : s.prepareAdmission seqId dpIdx batchSeqs batchTokens with ⟨_ | a, s₁⟩
  · rfl
  · rw [hprep] at h
    dsimp only at h ⊢
    rcases hres : s₁.reserveAdmission seqId dpIdx a with ⟨e | ⟨⟩, s₂⟩ <;> rw [hres] at h
    · dsimp only [Option.bind_some] at h ⊢
      unfold preemptOneForAllocation
      rw [h]
    · cases h

/-- No rank tried queues a swap-out over another sequence's page. -/
def RankSpares (st : PrefillState) (seqId dpIdx : ℕ) : Prop := SwapOutsSpare st.sched (st.tryRank seqId dpIdx).2.sched

/-- The host blocks for the victim of the try, if it has one, are no pages of another live sequence. -/
def SparesVictim (st : PrefillState) (seqId dpIdx : ℕ) : Prop :=
  st.sched.cacheSeqHasHostBlocks seqId = false →
    ∀ victim, st.sched.admissionVictim seqId dpIdx (st.numSeqs dpIdx) (st.numTokens dpIdx) = some victim →
      (st.sched.undone seqId dpIdx (st.numSeqs dpIdx) (st.numTokens dpIdx)).PreemptionSpares victim

def DecodeSpares (st : DecodeState) (seqId dpIdx : ℕ) : Prop :=
  SwapOutsSpare st.sched (decodeSeq dpIdx st seqId).sched

/-- The host blocks for a sequence that cannot grow are no pages of another live sequence. -/
def SparesItself (st : DecodeState) (seqId : ℕ) : Prop :=
  st.perGroup (st.sched.groupOfId seqId) < max st.sched.config.maxNumSeqs 1 →
    ∀ e s, st.sched.cacheEnsureBlocksForSeq seqId false = (.error e, s) → s.PreemptionSpares seqId

/-- A rank that preempts nobody queues nothing. -/
theorem tryRank_sameSwapOuts {st : PrefillState} (hmode : st.sched.config.mode = .decode)
    (h : st.sched.cacheSeqHasHostBlocks seqId = false →
      st.sched.admissionVictim seqId dpIdx (st.numSeqs dpIdx) (st.numTokens dpIdx) = none) :
    SameSwapOuts st.sched (st.tryRank seqId dpIdx).2.sched := by
  have hpop : ∀ st : PrefillState, SameSwapOuts st.sched st.popQueue.sched := by
    intro st
    unfold PrefillState.popQueue PrefillState.withSched
    split <;> exact ⟨rfl, rfl⟩
  unfold PrefillState.tryRank
  split
  case isTrue hhost =>
    have hrestore := st.sched.cacheTryRestoreHostBlocks_sameSwapOuts seqId dpIdx
    split
    case h_1 e s₁ heq =>
      rw [heq] at hrestore
      exact hrestore
    case h_2 s₁ heq =>
      rw [heq] at hrestore
      have hplaced := hrestore.trans (hpop (st.withSched s₁))
      exact hplaced.trans ⟨rfl, rfl⟩
    case h_3 s₁ heq =>
      rw [heq] at hrestore
      exact hrestore
  case isFalse hhost =>
    -- without a victim the attempt is the undone one, which queues nothing
    have htry := undone_sameSwapOuts hmode seqId dpIdx (st.numSeqs dpIdx) (st.numTokens dpIdx)
    have hsnd := st.sched.tryAllocatePrefill_snd seqId dpIdx (st.numSeqs dpIdx) (st.numTokens dpIdx)
    rw [h (by simpa using hhost), Option.elim_none] at hsnd
    rw [← hsnd] at htry
    unfold PrefillState.tryOn
    split
    case h_1 e s₁ heq =>
      rw [heq] at htry
      exact htry
    case h_2 n s₁ heq =>
      rw [heq] at htry
      have hplaced := htry.trans (hpop (st.withSched s₁))
      exact hplaced.trans ⟨rfl, rfl⟩
    case h_3 s₁ heq =>
      rw [heq] at htry
      exact htry

theorem rankSpares_iff {st : PrefillState} (hmode : st.sched.config.mode = .decode) :
    RankSpares st seqId dpIdx ↔ SparesVictim st seqId dpIdx := by
  unfold RankSpares SparesVictim
  by_cases hquiet : st.sched.cacheSeqHasHostBlocks seqId = false →
      st.sched.admissionVictim seqId dpIdx (st.numSeqs dpIdx) (st.numTokens dpIdx) = none
  · have hsame := (tryRank_sameSwapOuts hmode hquiet).spare
    refine ⟨fun _ hhost victim hvictim => ?_, fun _ => hsame⟩
    rw [hquiet hhost] at hvictim
    cases hvictim
  · push Not at hquiet
    obtain ⟨hhost, hvictim⟩ := hquiet
    obtain ⟨victim, hvictim⟩ := Option.ne_none_iff_exists'.1 hvictim
    have htry : (st.tryRank seqId dpIdx).2.sched =
        (st.sched.undone seqId dpIdx (st.numSeqs dpIdx) (st.numTokens dpIdx)).preemptImpl dpIdx victim := by
      unfold PrefillState.tryRank PrefillState.tryOn
      rw [if_neg (by rw [hhost]; exact Bool.false_ne_true), tryAllocatePrefill_preempts hvictim]
      rfl
    rw [htry, (undone_sameSwapOuts hmode seqId dpIdx _ _).spare_iff, preemptImpl_spare_iff]
    refine ⟨fun h _ victim' hvictim' => ?_, fun h => h hhost victim hvictim⟩
    rw [hvictim] at hvictim'
    cases hvictim'
    exact h

theorem decodeSpares_iff (st : DecodeState) (seqId dpIdx : ℕ) :
    DecodeSpares st seqId dpIdx ↔ SparesItself st seqId := by
  have hgrow := st.sched.cacheEnsureBlocksForSeq_sameSwapOuts seqId false
  unfold DecodeSpares SparesItself decodeSeq
  dsimp only
  by_cases hfull : st.perGroup (st.sched.groupOfId seqId) ≥ max st.sched.config.maxNumSeqs 1
  · rw [if_pos hfull]
    exact ⟨fun _ hroom => absurd hroom (not_lt.2 hfull), fun _ => (SameSwapOuts.refl st.sched).spare⟩
  · rw [if_neg hfull]
    rcases hens : st.sched.cacheEnsureBlocksForSeq seqId false with ⟨e | ⟨⟩, s₁⟩ <;> rw [hens] at hgrow
    · dsimp only at hgrow ⊢
      rw [hgrow.spare_iff, preemptImpl_spare_iff]
      refine ⟨fun h _ e' s' heq => ?_, fun h => h (not_le.1 hfull) e s₁ rfl⟩
      cases heq
      exact h
    · refine ⟨fun _ _ e' s' heq => (by cases heq), fun _ => ?_⟩
      have hmark : SameSwapOuts st.sched (s₁.markScheduled seqId) := hgrow.trans ⟨rfl, rfl⟩
      exact hmark.spare

/-! ## The whole call -/

open Classical in
/-- `RankSpares` as a test. -/
noncomputable def rankSpares : PrefillState.RankTest := fun st seqId dpIdx => decide (RankSpares st seqId dpIdx)

open Classical in
noncomputable def sparesVictim : PrefillState.RankTest := fun st seqId dpIdx => decide (SparesVictim st seqId dpIdx)

open Classical in
noncomputable def decodeSpares : DecodeTest := fun st seqId dpIdx => decide (DecodeSpares st seqId dpIdx)

open Classical in
noncomputable def sparesItself : DecodeTest := fun st seqId _ => decide (SparesItself st seqId)

section mono

variable {config : SchedulerConfig} {W W' : PrefillState.RankTest} {D D' : DecodeTest}

theorem tryRank_config (st : PrefillState) (seqId dpIdx : ℕ) :
    (st.tryRank seqId dpIdx).2.sched.config = st.sched.config := by
  unfold PrefillState.tryRank
  split
  case isTrue =>
    have hrestore := (st.sched.cacheTryRestoreHostBlocks_sameSwapOuts seqId dpIdx).config
    split <;> rename_i heq <;> rw [heq] at hrestore
    · exact hrestore
    · exact (PrefillState.config_placeRestored _ _ _).trans hrestore
    · exact hrestore
  case isFalse =>
    have htry := st.sched.tryAllocatePrefill_config seqId dpIdx (st.numSeqs dpIdx) (st.numTokens dpIdx)
    unfold PrefillState.tryOn
    split <;> rename_i heq <;> rw [heq] at htry
    · exact htry
    · exact (PrefillState.config_placeAdmitted _ _ _ _).trans htry
    · exact htry

/-- Tests that imply each other in the states of a configuration do so along the admission loop. -/
theorem loopPasses_mono (hW : ∀ st seqId d, st.sched.config = config → W st seqId d = true → W' st seqId d = true)
    {fuel : ℕ} {st : PrefillState} (hst : st.sched.config = config) (h : PrefillState.loopPasses W fuel st = true) :
    PrefillState.loopPasses W' fuel st = true := by
  have hranks : ∀ (seqId : ℕ) (ranks : List ℕ) (st : PrefillState), st.sched.config = config →
      PrefillState.ranksPass W seqId ranks st = true → PrefillState.ranksPass W' seqId ranks st = true := by
    intro seqId ranks
    induction ranks with
    | nil => exact fun _ _ _ => rfl
    | cons d ranks ih =>
      intro st hst hpass
      rw [PrefillState.ranksPass, Bool.and_eq_true] at hpass ⊢
      refine ⟨hW st seqId d hst hpass.1, ?_⟩
      have hnext := (tryRank_config st seqId d).trans hst
      have hrest := hpass.2
      split
      case h_1 st' heq =>
        rw [heq] at hnext hrest
        exact ih st' hnext hrest
      case h_2 => rfl
  -- the loop, turn by turn; a turn leaves the configuration as it is
  induction fuel generalizing st with
  | zero => rfl
  | succ fuel ih =>
    rw [PrefillState.loopPasses] at h ⊢
    split
    case h_1 => rfl
    case h_2 seqId heq =>
      rw [heq] at h
      dsimp only at h ⊢
      rw [Bool.and_eq_true] at h ⊢
      have hroute : (st.withSched (st.sched.routeCandidates seqId).2).sched.config = config :=
        (st.sched.routeCandidates_sameSwapOuts seqId).config.trans hst
      refine ⟨hranks seqId _ _ hroute h.1, ?_⟩
      have hnext := (PrefillState.tryCandidates_keepsStreams seqId (st.sched.routeCandidates seqId).1
        (st.withSched (st.sched.routeCandidates seqId).2)).config.trans hroute
      have hrest := h.2
      split
      case h_1 st' heq' =>
        rw [heq'] at hnext hrest
        exact ih hnext hrest
      case h_2 => rfl

theorem decodeRanksPass_mono (hD : ∀ st seqId d, st.sched.config = config →
    D st seqId d = true → D' st seqId d = true)
    {ranks : List ℕ} {s : Scheduler} (hs : s.config = config) (hranks : ∀ d ∈ ranks, d < s.dp)
    (h : decodeRanksPass D ranks s = true) : decodeRanksPass D' ranks s = true := by
  have hseqs : ∀ (d : ℕ) (ids : List ℕ) (st : DecodeState), st.sched.config = config →
      decodeSeqsPass D d ids st = true → decodeSeqsPass D' d ids st = true := by
    intro d ids
    induction ids with
    | nil => exact fun _ _ _ => rfl
    | cons id ids ih =>
      intro st hst hpass
      rw [decodeSeqsPass, Bool.and_eq_true] at hpass ⊢
      exact ⟨hD st id d hst hpass.1, ih (decodeSeq d st id) ((config_decodeSeq d st id).1.trans hst) hpass.2⟩
  induction ranks generalizing s with
  | nil => rfl
  | cons d ranks ih =>
    rw [decodeRanksPass, Bool.and_eq_true] at h ⊢
    have hrank : (s.decodeRank d).2.config = s.config :=
      (decodeRanks_keepsStreams [d] s fun d' hd' => hranks d' (List.mem_singleton.1 hd' ▸ List.mem_cons_self)).config
    refine ⟨hseqs d _ (s.decodeStart d) hs h.1, ih (hrank.trans hs) (fun d' hd' => ?_) h.2⟩
    unfold Scheduler.dp at hranks ⊢
    rw [hrank]
    exact hranks d' (List.mem_cons_of_mem _ hd')

theorem scheduleTested_mono (hW : ∀ st seqId d, st.sched.config = config →
    W st seqId d = true → W' st seqId d = true)
    (hD : ∀ st seqId d, st.sched.config = config → D st seqId d = true → D' st seqId d = true) {s : Scheduler}
    (hs : s.config = config) (h : s.scheduleTested W D = true) : s.scheduleTested W' D' = true := by
  unfold scheduleTested at h ⊢
  dsimp only at h ⊢
  rw [Bool.and_eq_true] at h ⊢
  have hstart : (PrefillState.init { s with currentStep := s.currentStep + 1 }).continueAll.sched.config = config :=
    (config_continueAll _).trans hs
  refine ⟨loopPasses_mono hW hstart h.1, ?_⟩
  have hprefill : { s with currentStep := s.currentStep + 1 }.schedulePrefill.2.config = config := by
    unfold schedulePrefill
    have hloop := (PrefillState.admitLoop_keepsStreams (PrefillState.init { s with currentStep := s.currentStep + 1
      }).continueAll.admissionFuel (PrefillState.init { s with currentStep := s.currentStep + 1 }).continueAll).config
    dsimp only
    split <;> rename_i heq <;> rw [heq] at hloop <;> exact hloop.trans hstart
  have hrest := h.2
  split
  case h_1 prefill s₁ heq =>
    rw [heq] at hrest hprefill
    rw [Bool.or_eq_true] at hrest ⊢
    exact hrest.imp id (decodeRanksPass_mono hD hprefill fun d hd => List.mem_range.1 hd)
  case h_2 => rfl

end mono

/-- Along a `schedule` call swap-outs spare the pages of others exactly when every preemption does. -/
theorem scheduleTested_spares_iff {config : SchedulerConfig} (hcold : config.ColdPages) {s : Scheduler}
    (hs : s.config = config) :
    s.scheduleTested rankSpares decodeSpares = true ↔ s.scheduleTested sparesVictim sparesItself = true := by
  have hrank : ∀ (st : PrefillState) (seqId d : ℕ), st.sched.config = config →
      (rankSpares st seqId d = true ↔ sparesVictim st seqId d = true) := by
    intro st seqId d hst
    simp only [rankSpares, sparesVictim, decide_eq_true_eq]
    exact rankSpares_iff (by rw [hst]; exact hcold.mode)
  have hdecode : ∀ (st : DecodeState) (seqId d : ℕ), decodeSpares st seqId d = true ↔
    sparesItself st seqId d = true := by
    intro st seqId d
    simp only [decodeSpares, sparesItself, decide_eq_true_eq]
    exact decodeSpares_iff st seqId d
  exact ⟨scheduleTested_mono (fun st seqId d hst => (hrank st seqId d hst).1)
    (fun st seqId d _ => (hdecode st seqId d).1) hs,
    scheduleTested_mono (fun st seqId d hst => (hrank st seqId d hst).2)
      (fun st seqId d _ => (hdecode st seqId d).2) hs⟩

open Classical in
/-- The rank tried queues no swap-out. -/
noncomputable def rankQueuesNothing : PrefillState.RankTest := fun st seqId dpIdx =>
  decide (SameSwapOuts st.sched (st.tryRank seqId dpIdx).2.sched)

open Classical in
noncomputable def decodeQueuesNothing : DecodeTest := fun st seqId dpIdx =>
  decide (SameSwapOuts st.sched (decodeSeq dpIdx st seqId).sched)

omit [Xxh3] in
theorem continueSeq_sameSwapOuts (dpIdx : ℕ) (st : PrefillState) (seqId : ℕ) :
    SameSwapOuts st.sched (PrefillState.continueSeq dpIdx st seqId).sched := by
  unfold PrefillState.continueSeq
  split
  · exact .refl _
  · dsimp only
    split <;> exact ⟨rfl, rfl⟩

/-- Swap-outs are queued nowhere else: a call whose turns queue none queues none. -/
theorem schedule_sameSwapOuts {s : Scheduler} (h : s.scheduleTested rankQueuesNothing decodeQueuesNothing = true) :
    SameSwapOuts s s.schedule.2 := by
  unfold scheduleTested at h
  dsimp only at h
  rw [Bool.and_eq_true] at h
  -- the three passes of a call: the continued prefills, the admissions, the decode ranks
  have hcont : SameSwapOuts s (PrefillState.init { s with currentStep := s.currentStep + 1 }).continueAll.sched :=
    PrefillState.continueAll_rule (I := fun st => SameSwapOuts s st.sched) (H := fun _ => True)
      (fun _ _ _ _ _ => trivial) (fun st d hst => hst.trans ⟨rfl, rfl⟩)
      (fun st d id hst _ => hst.trans (continueSeq_sameSwapOuts d st id)) ⟨rfl, rfl⟩
  have hloop : SameSwapOuts s { s with currentStep := s.currentStep + 1 }.schedulePrefill.2 := by
    have hadmit := PrefillState.admitLoop_rule (I := fun st => SameSwapOuts s st.sched) (H := fun _ => True)
      (W := rankQueuesNothing) (fun _ _ _ _ => trivial)
      (fun st id hst => hst.trans (st.sched.routeCandidates_sameSwapOuts id)) (fun st id d hst _ hW => hst.trans (by
        simpa only [rankQueuesNothing, decide_eq_true_eq] using hW)) h.1 hcont
    unfold schedulePrefill
    dsimp only
    split <;> rename_i heq <;> rw [heq] at hadmit <;> exact hadmit
  have hranks : ∀ (ranks : List ℕ) (s₁ : Scheduler), (∀ d ∈ ranks, d < s₁.dp) → SameSwapOuts s s₁ →
      decodeRanksPass decodeQueuesNothing ranks s₁ = true → SameSwapOuts s (decodeRanks ranks s₁).2 := by
    intro ranks
    induction ranks with
    | nil => exact fun _ _ h _ => h
    | cons d ranks ih =>
      intro s₁ hdp h₁ hpass
      rw [decodeRanksPass, Bool.and_eq_true] at hpass
      have hstart : SameSwapOuts s (s₁.decodeStart d).sched := h₁.trans ⟨rfl, rfl⟩
      have hfold := decodeSeqs_rule (I := fun st => SameSwapOuts s st.sched) (H := fun _ => True) (fun st id hst _ hD =>
        hst.trans (by simpa only [decodeQueuesNothing, decide_eq_true_eq] using hD)) (fun _ _ => trivial) hpass.1 hstart
      have hrank : SameSwapOuts s (s₁.decodeRank d).2 := by
        unfold decodeRank
        dsimp only
        generalize (s₁.running d).foldl (decodeSeq d) (s₁.decodeStart d) = st at hfold
        have hdp' : st.sched.dp = s₁.dp := congrArg SchedulerConfig.dp (hfold.config.trans h₁.config.symm)
        have hdummies := (decodeDummies_enters (d := d) (s := { st.sched with
          running := Function.update st.sched.running d st.skipped }) st.groupLens (List.range st.sched.group)
          (hdp' ▸ hdp d List.mem_cons_self) fun g hg => List.mem_range.1 hg).1
        exact hfold.trans ⟨hdummies.config, congrArg CacheState.pendingSwapOutTasks hdummies.cache⟩
      refine ih _ (fun d' hd' => ?_) hrank hpass.2
      have hdp' : (s₁.decodeRank d).2.dp = s₁.dp :=
        congrArg SchedulerConfig.dp (hrank.config.trans h₁.config.symm)
      rw [hdp']
      exact hdp d' (List.mem_cons_of_mem _ hd')
  have hrest := h.2
  unfold schedule
  split <;> rename_i heq <;> rw [heq] at hloop hrest
  · exact hloop
  · dsimp only at hrest ⊢
    split
    case isTrue => exact hloop
    case isFalse hany =>
      rw [Bool.or_eq_true] at hrest
      exact hranks _ _ (fun d hd => List.mem_range.1 hd) hloop (hrest.resolve_left hany)

end Scheduler

/-- **No swap-out of a step is queued over a page of another live sequence** exactly when every preemption of the step
finds host blocks that are none. -/
theorem swapOuts_spare_iff [Xxh3] (config : SchedulerConfig) (hcold : config.ColdPages) (x : EngineState)
    (hx : Reachable (engineSystem config) always x) :
    (x.sched.scheduleTested rankSpares decodeSpares = true ↔
      x.sched.scheduleTested sparesVictim sparesItself = true) ∧
      (x.sched.scheduleTested rankQueuesNothing decodeQueuesNothing = true →
        SameSwapOuts x.sched x.sched.schedule.2) :=
  ⟨scheduleTested_spares_iff hcold (pools_counted hx).config_eq, schedule_sameSwapOuts⟩

section runs

/-- Two pages for two sequences, and a host pool that counts the same two pages. -/
def coldConfig : SchedulerConfig where
  maxNumSeqs := 8
  maxNumBatchedTokens := 64
  maxModelLen := 100
  numKvcacheBlocks := 2
  numHostKvcacheBlocks := 2
  kvcacheBlockSize := 4
  mode := .decode
  cachePlan := { mla := true, indexer := true, hisparse := true, hisparseMaxNumSeqs := 8 }

theorem coldConfig_coldPages : coldConfig.ColdPages := ⟨rfl, rfl, rfl, rfl⟩

def coldHandOver (seqId : ℕ) (promptTokenIds : List ℤ) : EngineOp :=
  .addMigrated (sequenceToMigrationRequest { Sequence.new seqId promptTokenIds {} with status := .toBeMigrated })

/-- No swap-out of another sequence goes to page 0 while sequence 0 owns it. -/
def spareFirstPage [Xxh3] : DecodeTest := fun st seqId dpIdx =>
  let s := (decodeSeq dpIdx st seqId).sched
  !((newSwapOuts st.sched s 0).any (fun task => decide (task.seqId ≠ 0) && task.toBlocks.contains 0) &&
    s.unfinished 0 &&
    decide (s.cache.assignedFlat 0 s.group = some 0) &&
      ((s.seqTable 0).map (·.activeBlockTable.contains 0)).getD false)

theorem decodeSpares_spareFirstPage [Xxh3] {st : DecodeState} {seqId dpIdx : ℕ} (h : DecodeSpares st seqId dpIdx) :
    spareFirstPage st seqId dpIdx = true := by
  unfold spareFirstPage
  dsimp only
  by_contra hne
  simp only [Bool.not_eq_true', Bool.not_eq_false, Bool.and_eq_true, decide_eq_true_eq] at hne
  obtain ⟨⟨⟨hany, hunf⟩, hassign⟩, htable⟩ := hne
  obtain ⟨task, htask, hpage⟩ := List.any_eq_true.1 hany
  rw [Bool.and_eq_true, decide_eq_true_eq, List.contains_iff_mem] at hpage
  cases hseq : (decodeSeq dpIdx st seqId).sched.seqTable 0 with
  | none =>
    rw [hseq] at htable
    cases htable
  | some seq =>
    rw [hseq, Option.map_some, Option.getD_some, List.contains_iff_mem] at htable
    exact h 0 task htask 0 hpage.2 ⟨0, seq, Ne.symm hpage.1, hunf, hassign, hseq, htable⟩

attribute [local instance] codeHash

/-- Both sequences have been admitted, each with one page. -/
theorem swapOuts_spare_iff_admitted : ∃ x, Reachable (engineSystem coldConfig) always x ∧
    x.sched.running 0 = [0, 1] ∧
    (x.sched.scheduleTested rankSpares decodeSpares = true ↔
      x.sched.scheduleTested sparesVictim sparesItself = true) ∧
    (x.sched.scheduleTested rankQueuesNothing decodeQueuesNothing = true →
      SameSwapOuts x.sched x.sched.schedule.2) := by
  obtain ⟨x, hx, hP⟩ := Reachable.exists_of_run (T := engineSystem coldConfig) (G := always)
    (P := fun x => decide (x.sched.running 0 = [0, 1])) (s := EngineState.init coldConfig)
    [coldHandOver 0 [1, 2], coldHandOver 1 [3, 4, 5, 6], .step [] []] rfl (by decide +kernel)
  exact ⟨x, hx, of_decide_eq_true hP, swapOuts_spare_iff coldConfig coldConfig_coldPages x hx⟩

/-- Sequence 1 fills its page and cannot grow: it is swapped out to host block 0, the page of sequence 0. -/
theorem not_swapOuts_spare : ¬ ∀ (config : SchedulerConfig), config.ColdPages → ∀ x : EngineState,
    Reachable (engineSystem config) always x → x.sched.scheduleTested rankSpares decodeSpares = true := by
  intro h
  obtain ⟨x, hx, hP⟩ := Reachable.exists_of_run (T := engineSystem coldConfig) (G := always)
    (P := fun x => !x.sched.scheduleTested (fun _ _ _ => true) spareFirstPage) (s := EngineState.init coldConfig)
    [coldHandOver 0 [1, 2], coldHandOver 1 [3, 4, 5, 6], .step [] []] rfl (by decide +kernel)
  have hspare : x.sched.scheduleTested (fun _ _ _ => true) spareFirstPage = true :=
    scheduleTested_mono (fun _ _ _ _ _ => rfl) (fun st id d _ hD => decodeSpares_spareFirstPage (by
      simpa only [decodeSpares, decide_eq_true_eq] using hD)) rfl (h coldConfig coldConfig_coldPages x hx)
  rw [hspare] at hP
  cases hP

end runs

end NanoEngine
