import NanoEngine.Scheduler.State

/-!
# NanoEngine.Scheduler.CacheFlow — cache reservations of the scheduler

`rust/src/scheduler/cache_flow.rs`: host swap and restore, prefix reuse, growth and the per-sequence slots.  A
function of the source that returns `PyResult<T>` returns `Except PyErr T` and the scheduler it leaves behind, also
when it fails.
-/

namespace NanoEngine

namespace Scheduler

def cacheSeqHasHostBlocks (s : Scheduler) (seqId : ℕ) : Bool :=
  ((s.seqTable seqId).map (fun seq => !seq.hostBlockTable.isEmpty)).getD false

/-- The host table a restore reads: the group's own one unless it is missing or empty. -/
def hostBlocksOf (s : Scheduler) (seq : Sequence) : List ℕ :=
  match seq.hostBlockTables (s.groupOf seq) with
  | some blocks => if blocks = [] then seq.hostBlockTable else blocks
  | none => seq.hostBlockTable

variable [Xxh3]

/-- `cache_try_restore_host_blocks`: bring a swapped-out sequence back to the rank it came from. -/
def cacheTryRestoreHostBlocks (s : Scheduler) (seqId dpIdx : ℕ) : Except PyErr Bool × Scheduler :=
  match s.seqTable seqId with
  | none => (.ok false, s)
  | some seq =>
    let originalDp := (max seq.activeDpIdx 0).toNat
    let groupId := s.groupOf seq
    let hostBlocks := s.hostBlocksOf seq
    if hostBlocks = [] ∨ dpIdx ≠ originalDp then (.ok false, s)
    else if s.currentStep ≤ seq.lastSwappedOutStep + hostSwapInCooldownSteps then (.ok false, s)
    else
      let flat := s.flatIdx dpIdx groupId
      if (s.cache.hbmPools flat).numFreeBlocks < hostBlocks.length then (.ok false, s)
      else
        let tokens : ℤ := hostBlocks.length * s.config.blockSize
        match s.cache.ensureHbmBlocks flat seqId [] tokens false with
        | (.error _, c) => (.error (.outOfKvCacheBlocksRestoring seqId dpIdx groupId), s.setCache c)
        | (.ok gpuBlocks, c) =>
          let s := s.setCache (c.assignSeq seqId dpIdx groupId)
          let s := s.updateSeq seqId (fun seq => { seq with
            activeDpIdx := dpIdx
            activeGroupId := groupId
            activeBlockTable := gpuBlocks
            activeBlockTables := Function.update seq.activeBlockTables groupId (some gpuBlocks)
            status := .running })
          (.ok true, s.setCache (s.cache.pushPendingSwapIn flat seqId hostBlocks gpuBlocks))

/-- `cache_prepare_host_swap_out`: host blocks for a preempted sequence and the task that fills them. -/
def cachePrepareHostSwapOut (s : Scheduler) (seqId : ℕ) : Bool × Scheduler :=
  if s.config.numHostKvcacheBlocks ≤ 0 ∨ (s.cache.pendingHostSwaps seqId).isSome then (false, s)
  else match s.cache.seqAssignment seqId with
    | none => (false, s)
    | some (dpIdx, groupId) =>
      let flat := s.flatIdx dpIdx groupId
      let gpuBlocks := ((s.seqTable seqId).map (·.activeBlockTable)).getD []
      if gpuBlocks = [] then (false, s)
      else
        let tokens : ℤ := gpuBlocks.length * s.config.blockSize
        match s.cache.ensureHostBlocks flat seqId [] tokens false with
        | (.error _, c) => (false, s.setCache c)
        | (.ok hostBlocks, c) =>
          let c := { c with
            pendingHostSwaps := Function.update c.pendingHostSwaps seqId (some ⟨dpIdx, groupId⟩) }
          let s := s.setCache (c.pushPendingSwapOut flat seqId gpuBlocks hostBlocks)
          (true, s.updateSeq seqId (fun seq => { seq with
            hostBlockTable := hostBlocks
            hostBlockTables := Function.update seq.hostBlockTables groupId (some hostBlocks)
            lastSwappedOutStep := s.currentStep }))

omit [Xxh3] in
/-- One task of `cache_complete_host_swap_outs`. -/
def completeHostSwapOut (s : Scheduler) (task : SwapTask) : Scheduler :=
  match s.cache.pendingHostSwaps task.seqId with
  | none => s
  | some pending =>
    let c := { s.cache with pendingHostSwaps := Function.update s.cache.pendingHostSwaps task.seqId none }
    let flat := s.flatIdx pending.dpIdx pending.groupId
    let s := s.setCache ((c.removeHbmSeq flat task.seqId).removeAssignment task.seqId)
    s.updateSeq task.seqId (fun seq => { seq with
      activeBlockTable := []
      activeBlockTables := fun _ => none })

omit [Xxh3] in
/-- `cache_complete_host_swap_outs`. -/
def cacheCompleteHostSwapOuts (s : Scheduler) (tasks : List (List SwapTask)) : Scheduler :=
  let s := tasks.flatten.foldl completeHostSwapOut s
  s.setCache s.cache.clearPendingSwapOutTasks

omit [Xxh3] in
/-- One task of `cache_complete_host_swap_ins`. -/
def completeHostSwapIn (flat : ℕ) (s : Scheduler) (task : SwapTask) : Scheduler :=
  let s := s.setCache (s.cache.removeHostSeq flat task.seqId)
  s.updateSeq task.seqId (fun seq => { seq with
    hostBlockTable := []
    hostBlockTables := fun _ => none })

omit [Xxh3] in
/-- The loop of `cache_complete_host_swap_ins` over the flat ranks from `flat` on. -/
def completeHostSwapInsFrom : ℕ → List (List SwapTask) → Scheduler → Scheduler
  | _, [], s => s
  | flat, groupTasks :: tasks, s =>
    completeHostSwapInsFrom (flat + 1) tasks (groupTasks.foldl (completeHostSwapIn flat) s)

omit [Xxh3] in
/-- `cache_complete_host_swap_ins`. -/
def cacheCompleteHostSwapIns (s : Scheduler) (tasks : List (List SwapTask)) : Scheduler :=
  let s := completeHostSwapInsFrom 0 tasks s
  s.setCache s.cache.clearPendingSwapInTasks

omit [Xxh3] in
/-- Prefix blocks are written back to the host only when it has any. -/
def hostEnabled (s : Scheduler) : Bool := decide (s.config.numHostKvcacheBlocks > 0)

/-- `cache_cached_tokens_for_prefix`: GQA with HiSparse recomputes a tail of the prompt. -/
def cacheCachedTokensForPrefix (s : Scheduler) (flat : ℕ) (tokenIds : List ℤ) (tokens : ℤ) : ℤ × Scheduler :=
  let r := s.cache.cachedTokensForPrefix flat tokenIds tokens s.config.blockSize (s.blocksNeededForTokens tokens)
  let cached := if s.config.cachePlan.gqa && s.config.cachePlan.hisparse then
      min r.1 (max (tokens - max s.config.cachePlan.hisparseSwapInBlockSize 1) 0)
    else r.1
  (cached, s.setCache r.2)

omit [Xxh3] in
def cacheAttachActiveBlocks (s : Scheduler) (seqId dpIdx groupId : ℕ) (blocks : List ℕ) : Scheduler :=
  s.updateSeq seqId (fun seq => { seq with
    activeGroupId := groupId
    activeBlockTable := blocks
    activeBlockTables := Function.update seq.activeBlockTables groupId (some blocks)
    activeDpIdx := dpIdx })

omit [Xxh3] in
def cacheAttachMigrateBlocks (s : Scheduler) (seqId dpIdx groupId : ℕ) (blocks : List ℕ) : Scheduler :=
  s.updateSeq seqId (fun seq => { seq with
    migrateGroupId := groupId
    migrateBlockTable := blocks
    migrateBlockTables := Function.update seq.migrateBlockTables groupId (some blocks)
    migrateEngineId := s.config.engineId
    migrateNumKvcacheBlocks := s.config.numKvcacheBlocks
    migrateGroupSize := max s.config.groupSize 1
    migrateDpIdx := dpIdx })

omit [Xxh3] in
/-- The new table of a group is attached, for a sequence that will migrate also in its migration fields. -/
def cacheAttachBlocks (s : Scheduler) (seqId dpIdx groupId : ℕ) (blocks : List ℕ) (setMigrate : Bool) : Scheduler :=
  let s := s.cacheAttachActiveBlocks seqId dpIdx groupId blocks
  if setMigrate then s.cacheAttachMigrateBlocks seqId dpIdx groupId blocks else s

/-- `cache_ensure_group_blocks_with_host_prefix`. -/
def cacheEnsureGroupBlocksWithHostPrefix (s : Scheduler) (seqId dpIdx groupId : ℕ) (tokens : ℤ)
    (setMigrate : Bool) : Except PyErr (List ℕ) × Scheduler :=
  let flat := s.flatIdx dpIdx groupId
  let tokenIds := ((s.seqTable seqId).map (·.tokenIds)).getD []
  match CacheState.reserveLoop flat seqId tokenIds s.config.blockSize s.hostEnabled (s.blocksNeededForTokens tokens)
      0 (-1) false s.cache with
  | (.error e, c) => (.error e, s.setCache c)
  | (.ok blocks, c) =>
    let s := s.setCache (c.setHbmPool flat ((c.hbmPools flat).insertSeqBlocks seqId blocks))
    (.ok blocks, s.cacheAttachBlocks seqId dpIdx groupId blocks setMigrate)

/-- `cache_ensure_group_blocks`: the blocks of one group for an admission. -/
def cacheEnsureGroupBlocks (s : Scheduler) (seqId dpIdx groupId : ℕ) (tokens : ℤ) (setMigrate : Bool) :
    Except PyErr (List ℕ) × Scheduler :=
  let needsMtpHandoffLookahead :=
    (setMigrate && decide (s.config.mode ≠ .decode)) || decide (s.config.mode = .decode)
  let allocationTokens :=
    if needsMtpHandoffLookahead then tokens + max s.config.numSpeculativeTokens 0 else tokens
  let neededBlocks := s.blocksNeededForTokens allocationTokens
  let flat := s.flatIdx dpIdx groupId
  let usePrefixCache := setMigrate && decide (s.group = 1) && decide (s.config.mode ≠ .decode)
    && s.cache.prefixCachingEnabled
  if usePrefixCache && !(s.cache.hbmPools flat).hasSeq seqId then
    s.cacheEnsureGroupBlocksWithHostPrefix seqId dpIdx groupId allocationTokens setMigrate
  else
    let tokenIds := if usePrefixCache then ((s.seqTable seqId).map (·.tokenIds)).getD [] else []
    match s.cache.ensureHbmBlocks flat seqId tokenIds allocationTokens usePrefixCache with
    | (.error _, c) =>
      (.error (.outOfKvCacheBlocksFor seqId dpIdx groupId neededBlocks), s.setCache c)
    | (.ok blocks, c) =>
      (.ok blocks, (s.setCache c).cacheAttachBlocks seqId dpIdx groupId blocks setMigrate)

omit [Xxh3] in
/-- `cache_ensure_state_slot`. -/
def cacheEnsureStateSlot (s : Scheduler) (seqId : ℕ) : Except PyErr Unit × Scheduler :=
  if s.config.needsMtpHandoff || s.config.cachePlan.hasState then
    match s.cache.ensureStateSlot s.dp seqId with
    | (none, c) => (.error (.outOfStateSlots seqId), s.setCache c)
    | (some slot, c) =>
      (.ok (), (s.setCache c).updateSeq seqId (fun seq => { seq with activeStateSlot := slot }))
  else (.ok (), s)

omit [Xxh3] in
/-- `cache_ensure_hisparse_slot`. -/
def cacheEnsureHisparseSlot (s : Scheduler) (seqId : ℕ) : Except PyErr Unit × Scheduler :=
  if s.config.cachePlan.hisparse then
    match s.cache.ensureHisparseSlot s.dp seqId with
    | (none, c) => (.error (.outOfHisparseSlots seqId), s.setCache c)
    | (some slot, c) =>
      (.ok (), (s.setCache c).updateSeq seqId (fun seq => { seq with activeHisparseSlot := slot }))
  else (.ok (), s)

omit [Xxh3] in
/-- `cache_ensure_compressed_pages`. -/
def cacheEnsureCompressedPages (s : Scheduler) (seqId : ℕ) (neededTokens : ℤ) : Except PyErr Unit × Scheduler :=
  if s.cache.compressedPools.isEmpty then (.ok (), s)
  else match s.cache.ensureCompressedPages seqId neededTokens with
    | (.error e, c) => (.error e, s.setCache c)
    | (.ok tables, c) =>
      (.ok (), (s.setCache c).updateSeq seqId (fun seq => { seq with activeCompressedBlockTables := tables }))

omit [Xxh3] in
/-- The three per-sequence reservations that follow the KV blocks. -/
def cacheEnsureSlotsAndPages (s : Scheduler) (seqId : ℕ) (neededTokens : ℤ) : Except PyErr Unit × Scheduler :=
  match s.cacheEnsureStateSlot seqId with
  | (.error e, s) => (.error e, s)
  | (.ok (), s) =>
    match s.cacheEnsureHisparseSlot seqId with
    | (.error e, s) => (.error e, s)
    | (.ok (), s) => s.cacheEnsureCompressedPages seqId neededTokens

omit [Xxh3] in
/-- The slots and pages of a sequence are copied into its migration fields. -/
def attachMigrateSlots (s : Scheduler) (seqId : ℕ) : Scheduler :=
  s.updateSeq seqId (fun seq => { seq with
    migrateStateSlot := ((s.cache.stateSlot s.dp seqId).map (fun n => (n : ℤ))).getD seq.migrateStateSlot
    migrateHisparseSlot := ((s.cache.hisparseSlot s.dp seqId).map (fun n => (n : ℤ))).getD seq.migrateHisparseSlot
    migrateCompressedBlockTables := fun ratio =>
      (s.cache.compressedPages seqId ratio).orElse (fun _ => seq.migrateCompressedBlockTables ratio) })

omit [Xxh3] in
/-- The rank of a sequence; one without a rank is assigned by the router. -/
def cacheAssignment (s : Scheduler) (seqId : ℕ) : (ℕ × ℕ) × Scheduler :=
  match s.cache.seqAssignment seqId with
  | some assignment => (assignment, s)
  | none =>
    let r := s.chooseAssignment
    (r.1, r.2.setCache (r.2.cache.assignSeq seqId r.1.1 r.1.2))

/-- The reservations of `cache_ensure_blocks_for_seq` on the rank found for the sequence. -/
def cacheGrowSeq (s : Scheduler) (seqId dpIdx groupId : ℕ) (seq : Sequence) (neededTokens : ℤ) (isPrefill : Bool) :
    Except PyErr Unit × Scheduler :=
  let flat := s.flatIdx dpIdx groupId
  let usePrefixCache := isPrefill && decide (s.group = 1) && decide (s.config.mode ≠ .decode)
    && s.cache.prefixCachingEnabled
  let tokenIds := if usePrefixCache then seq.tokenIds else []
  match s.cache.ensureHbmBlocks flat seqId tokenIds neededTokens usePrefixCache with
  | (.error _, c) =>
    (.error (.outOfKvCacheBlocksFor seqId dpIdx groupId (s.blocksNeededForTokens neededTokens)), s.setCache c)
  | (.ok blocks, c) =>
    let s := (s.setCache c).cacheAttachActiveBlocks seqId dpIdx groupId blocks
    match s.cacheEnsureSlotsAndPages seqId neededTokens with
    | (.error e, s) => (.error e, s)
    | (.ok (), s) =>
      if isPrefill && decide (s.config.mode ≠ .decode) then
        (.ok (), (s.cacheAttachMigrateBlocks seqId dpIdx groupId blocks).attachMigrateSlots seqId)
      else (.ok (), s)

omit [Xxh3] in
/-- `needed_tokens`: a decode step also needs room for what speculation may write. -/
def growthTokens (s : Scheduler) (seq : Sequence) (isPrefill : Bool) : ℤ :=
  let speculativeLookahead := max s.config.numSpeculativeTokens 0
  if isPrefill && decide (s.config.mode ≠ .decode) then seq.numTokens + speculativeLookahead
  else seq.numTokens + max (speculativeLookahead * 2) 1

/-- `cache_ensure_blocks_for_seq`: room for the next decode step (its only use passes `is_prefill = false`). -/
def cacheEnsureBlocksForSeq (s : Scheduler) (seqId : ℕ) (isPrefill : Bool) : Except PyErr Unit × Scheduler :=
  match s.seqTable seqId with
  | none => (.ok (), s)
  | some seq =>
    let neededTokens := s.growthTokens seq isPrefill
    if !isPrefill && !(s.config.cachePlan.hasState || s.config.cachePlan.hisparse) && s.cache.compressedPools.isEmpty
        && decide (s.blocksNeededForTokens neededTokens ≤ seq.activeBlockTable.length) then (.ok (), s)
    else
      let placed := s.cacheAssignment seqId
      placed.2.cacheGrowSeq seqId placed.1.1 placed.1.2 seq neededTokens isPrefill

omit [Xxh3] in
/-- The scheduler's `release_seq`. -/
def releaseSeq (s : Scheduler) (seqId : ℕ) : Scheduler :=
  s.setCache (s.cache.releaseSeq seqId s.group)

end Scheduler

end NanoEngine
