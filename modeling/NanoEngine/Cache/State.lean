import NanoEngine.Sequence
import NanoEngine.Cache.BlockPool

/-!
# NanoEngine.Cache.State — all cache tiers of one scheduler

`rust/src/cache/table/slot/pool.rs`, `cache/state.rs` and the cache operations of `cache/coordinator.rs`.

* The vectors indexed by the flat rank `dp_idx * group + group_id` (and the slot pools indexed by `dp_idx`) are
  functions on `ℕ`; only the indices below `dp * group` (below `dp`) are used.
* Free slots and free pages are stacks with the top at the head, as `free_blocks` in `BlockPool`.
* `compressed_pools` is a map keyed by the ratio with at most two entries: a list, in the order in which
  `CacheState::new` inserts them.
-/

namespace NanoEngine

/-! ## Slot pools -/

/-- `SlotPool`: the free slots, the next one first, and the slot of each sequence. -/
structure SlotPool where
  freeSlots : List ℕ
  seqSlots : ℕ → Option ℕ
  numSlots : ℕ

namespace SlotPool

def new (numSlots : ℤ) : SlotPool := ⟨List.range numSlots.toNat, fun _ => none, numSlots.toNat⟩

/-- The slot of a sequence, taken from the free ones when it has none. -/
def ensure (p : SlotPool) (seqId : ℕ) : Option ℕ × SlotPool :=
  match p.seqSlots seqId with
  | some slot => (some slot, p)
  | none =>
    match p.freeSlots with
    | [] => (none, p)
    | slot :: free =>
      (some slot, { p with freeSlots := free, seqSlots := Function.update p.seqSlots seqId (some slot) })

/-- A slot that is free already is not freed again. -/
def releaseSlot (p : SlotPool) (slot : ℕ) : SlotPool :=
  if slot ∈ p.freeSlots then p else { p with freeSlots := slot :: p.freeSlots }

/-- The slot of a sequence, given back. -/
def remove (p : SlotPool) (seqId : ℕ) : SlotPool :=
  match p.seqSlots seqId with
  | none => p
  | some slot => { p with seqSlots := Function.update p.seqSlots seqId none }.releaseSlot slot

def canEnsure (p : SlotPool) (seqId : ℕ) : Bool :=
  (p.seqSlots seqId).isSome || !p.freeSlots.isEmpty

end SlotPool

/-! ## Compressed pages -/

/-- The pages of one compression ratio, and the pages of each sequence. -/
structure CompressedPool where
  ratio : ℤ
  pageSize : ℤ
  maxBlocksPerSeq : ℤ
  freePages : List ℕ
  seqPages : ℕ → Option (List ℕ)

namespace CompressedPool

/-- One entry of the loop of `CacheState::new`; an incomplete spec gives no pool. -/
def ofSpec (spec : CompressedSpec) : Option CompressedPool :=
  if spec.compressionRatio > 0 ∧ spec.numPages > 0 ∧ spec.pageSize > 0 ∧ spec.maxBlocksPerSeq > 0 then
    some ⟨spec.compressionRatio, spec.pageSize, spec.maxBlocksPerSeq, List.range spec.numPages.toNat,
      fun _ => none⟩
  else none

/-- `compressed_pages_needed_for_tokens`. -/
def pagesNeededForTokens (p : CompressedPool) (tokens : ℤ) : ℕ :=
  let compressedTokens := max ((max tokens 1 + p.ratio - 1) / p.ratio) 1
  let pages := (compressedTokens + p.pageSize - 1) / p.pageSize
  (max (min pages p.maxBlocksPerSeq) 1).toNat

/-- The `while` loop of `ensure_compressed_pages`: `n` more pages for `seqId`; `false` when they run out. -/
def takePages (seqId : ℕ) : ℕ → CompressedPool → Bool × CompressedPool
  | 0, p => (true, p)
  | n + 1, p =>
    match p.freePages with
    | [] => (false, p)
    | page :: free =>
      takePages seqId n { p with
        freePages := free
        seqPages := Function.update p.seqPages seqId (some ((p.seqPages seqId).getD [] ++ [page])) }

/-- One iteration of `ensure_compressed_pages`. -/
def ensurePages (p : CompressedPool) (seqId : ℕ) (neededTokens : ℤ) :
    Except PyErr (List ℕ) × CompressedPool :=
  let needed := p.pagesNeededForTokens neededTokens
  let pages := (p.seqPages seqId).getD []
  let p := { p with seqPages := Function.update p.seqPages seqId (some pages) }
  match takePages seqId (needed - pages.length) p with
  | (true, p) => (.ok ((p.seqPages seqId).getD []), p)
  | (false, p) => (.error (.outOfCompressedPages seqId p.ratio needed ((p.seqPages seqId).getD []).length), p)

/-- Every page of a sequence goes back to the front of the free list, the last one of its table first. -/
def removeSeq (p : CompressedPool) (seqId : ℕ) : CompressedPool :=
  match p.seqPages seqId with
  | none => p
  | some pages => { p with
      freePages := pages.reverse ++ p.freePages
      seqPages := Function.update p.seqPages seqId none }

end CompressedPool

/-! ## `CacheState` -/

/-- `HOST_PREFIX_CACHE_SEQ_ID = u64::MAX`. -/
def hostPrefixCacheSeqId : ℕ := u64Max

/-- Where the host blocks of a swapped sequence lie. -/
structure PendingHostSwap where
  dpIdx : ℕ
  groupId : ℕ

/-- A swap task: sequence id, source blocks, destination blocks. -/
structure SwapTask where
  seqId : ℕ
  fromBlocks : List ℕ
  toBlocks : List ℕ
  deriving DecidableEq

/-- `CacheState`: one HBM and one host pool a flat rank, one pair of slot pools a DP rank, and the compressed pools.
-/
structure CacheState where
  hbmPools : ℕ → BlockPool
  hostPools : ℕ → BlockPool
  pendingHostSwaps : ℕ → Option PendingHostSwap
  pendingSwapOutTasks : ℕ → List SwapTask
  pendingSwapInTasks : ℕ → List SwapTask
  seqAssignment : ℕ → Option (ℕ × ℕ)
  sessionAffinity : ℕ → Option ℕ
  sessionWait : ℕ → Option ℕ
  stateSlots : ℕ → SlotPool
  hisparseSlots : ℕ → SlotPool
  compressedPools : List CompressedPool
  prefixCachingAllowed : Bool
  prefixCachingEnabled : Bool
  prefixCachedTokensBySeq : ℕ → Option ℤ

namespace CacheState

/-- The compressed pools of a plan: HCA first, a CSA spec of the same ratio replaces it. -/
def newCompressedPools (plan : CachePlan) : List CompressedPool :=
  if plan.hcaFlag || plan.csaFlag then
    match CompressedPool.ofSpec plan.hca, CompressedPool.ofSpec plan.csa with
    | none, none => []
    | some h, none => [h]
    | none, some c => [c]
    | some h, some c => if h.ratio = c.ratio then [c] else [h, c]
  else []

/-- `CacheState::new`: the host pools begin with prefix caching off, all pools do in a plan with linear attention. -/
def new (config : SchedulerConfig) : CacheState :=
  let prefixCachingAllowed := config.enablePrefixCache && !config.cachePlan.gdn
  let stateSlots : ℤ := if config.needsMtpHandoff || config.cachePlan.hasState then
    max config.cachePlan.gdnStateSlots config.maxNumSeqs else 0
  let hisparseSlots : ℤ := if config.cachePlan.hisparse then
    max config.cachePlan.hisparseMaxNumSeqs config.maxNumSeqs else 0
  { hbmPools := fun _ => (BlockPool.new config.numKvcacheBlocks config.kvcacheBlockSize).setPrefixCachingEnabled
      prefixCachingAllowed
    hostPools := fun _ => (BlockPool.new config.numHostKvcacheBlocks config.kvcacheBlockSize).setPrefixCachingEnabled
      false
    pendingHostSwaps := fun _ => none
    pendingSwapOutTasks := fun _ => []
    pendingSwapInTasks := fun _ => []
    seqAssignment := fun _ => none
    sessionAffinity := fun _ => none
    sessionWait := fun _ => none
    stateSlots := fun _ => SlotPool.new stateSlots
    hisparseSlots := fun _ => SlotPool.new hisparseSlots
    compressedPools := newCompressedPools config.cachePlan
    prefixCachingAllowed := prefixCachingAllowed
    prefixCachingEnabled := prefixCachingAllowed
    prefixCachedTokensBySeq := fun _ => none }

/-- Both kinds of pool follow the switch, as far as the configuration allows it. -/
def setPrefixCachingEnabled (c : CacheState) (enabled : Bool) : CacheState :=
  let enabled := enabled && c.prefixCachingAllowed
  { c with
    prefixCachingEnabled := enabled
    hbmPools := fun f => (c.hbmPools f).setPrefixCachingEnabled enabled
    hostPools := fun f => (c.hostPools f).setPrefixCachingEnabled enabled }

def setHbmPool (c : CacheState) (flat : ℕ) (p : BlockPool) : CacheState :=
  { c with hbmPools := Function.update c.hbmPools flat p }

def setHostPool (c : CacheState) (flat : ℕ) (p : BlockPool) : CacheState :=
  { c with hostPools := Function.update c.hostPools flat p }

/-- `CacheState::release_seq`. -/
def releaseSeq (c : CacheState) (seqId group : ℕ) : CacheState :=
  let c := match c.pendingHostSwaps seqId with
    | none => c
    | some pending =>
      let flat := pending.dpIdx * group + pending.groupId
      { c with pendingHostSwaps := Function.update c.pendingHostSwaps seqId none }.setHostPool flat
        ((c.hostPools flat).removeSeq seqId)
  let c := match c.seqAssignment seqId with
    | none => c
    | some (dpIdx, groupId) =>
      let flat := dpIdx * group + groupId
      { c with seqAssignment := Function.update c.seqAssignment seqId none }.setHbmPool flat
        ((c.hbmPools flat).removeSeq seqId)
  { c with
    hostPools := fun f => (c.hostPools f).removeSeq seqId
    stateSlots := fun d => (c.stateSlots d).remove seqId
    hisparseSlots := fun d => (c.hisparseSlots d).remove seqId
    compressedPools := c.compressedPools.map (fun p => p.removeSeq seqId) }

/-! ### Coordinator operations -/

def assignSeq (c : CacheState) (seqId dpIdx groupId : ℕ) : CacheState :=
  { c with seqAssignment := Function.update c.seqAssignment seqId (some (dpIdx, groupId)) }

def removeAssignment (c : CacheState) (seqId : ℕ) : CacheState :=
  { c with seqAssignment := Function.update c.seqAssignment seqId none }

def clearPendingSwapOutTasks (c : CacheState) : CacheState :=
  { c with pendingSwapOutTasks := fun _ => [] }

def clearPendingSwapInTasks (c : CacheState) : CacheState :=
  { c with pendingSwapInTasks := fun _ => [] }

def pushPendingSwapOut (c : CacheState) (flat seqId : ℕ) (fromBlocks toBlocks : List ℕ) : CacheState :=
  let tasks := c.pendingSwapOutTasks flat ++ [⟨seqId, fromBlocks, toBlocks⟩]
  { c with pendingSwapOutTasks := Function.update c.pendingSwapOutTasks flat tasks }

def pushPendingSwapIn (c : CacheState) (flat seqId : ℕ) (fromBlocks toBlocks : List ℕ) : CacheState :=
  let tasks := c.pendingSwapInTasks flat ++ [⟨seqId, fromBlocks, toBlocks⟩]
  { c with pendingSwapInTasks := Function.update c.pendingSwapInTasks flat tasks }

/-- `ensure_blocks` on the HBM pool of a flat rank. -/
def ensureHbmBlocks [Xxh3] (c : CacheState) (flat seqId : ℕ) (tokenIds : List ℤ) (tokens : ℤ)
    (usePrefixCache : Bool) : Except PyErr (List ℕ) × CacheState :=
  let r := (c.hbmPools flat).ensureBlocks seqId tokenIds tokens usePrefixCache
  (r.1, c.setHbmPool flat r.2)

/-- `ensure_blocks` on the host pool of a flat rank. -/
def ensureHostBlocks [Xxh3] (c : CacheState) (flat seqId : ℕ) (tokenIds : List ℤ) (tokens : ℤ)
    (usePrefixCache : Bool) : Except PyErr (List ℕ) × CacheState :=
  let r := (c.hostPools flat).ensureBlocks seqId tokenIds tokens usePrefixCache
  (r.1, c.setHostPool flat r.2)

def removeHbmSeq (c : CacheState) (flat seqId : ℕ) : CacheState :=
  c.setHbmPool flat ((c.hbmPools flat).removeSeq seqId)

def removeHostSeq (c : CacheState) (flat seqId : ℕ) : CacheState :=
  c.setHostPool flat ((c.hostPools flat).removeSeq seqId)

/-- `write_back_evicted_prefix`: save the bytes of an evicted `Ready` block in the host pool. -/
def writeBackEvictedPrefix (c : CacheState) (flat : ℕ) (evicted : Option EvictedBlock)
    (hostEnabled : Bool) : Except PyErr Unit × CacheState :=
  match evicted with
  | none => (.ok (), c)
  | some e =>
    if hostEnabled then
      match (c.hostPools flat).storeReadyCacheBlock e.hash e.tokenIds with
      | (.error err, p) => (.error err, c.setHostPool flat p)
      | (.ok hostBlock, p) =>
        (.ok (), (c.setHostPool flat p).pushPendingSwapOut flat hostPrefixCacheSeqId [e.blockId] [hostBlock])
    else (.ok (), c)

/-- A block for a position without a cached prefix: popped from the free list, its old contents written back. -/
def reserveFresh (c : CacheState) (flat : ℕ) (hostEnabled : Bool) : Except PyErr ℕ × CacheState :=
  match (c.hbmPools flat).allocateFreshWithEviction with
  | (.error e, p) => (.error e, c.setHbmPool flat p)
  | (.ok (blockId, evicted), p) =>
    match (c.setHbmPool flat p).writeBackEvictedPrefix flat evicted hostEnabled with
    | (.error e, c) => (.error e, c)
    | (.ok (), c) => (.ok blockId, c)

/-- A block for a prefix found on the host: `Ready` at once, filled by the swap-in task queued here. -/
def reservePromoted (c : CacheState) (flat seqId : ℕ) (hash : ℤ) (view : List ℤ) (hostBlock : ℕ)
    (hostEnabled : Bool) : Except PyErr ℕ × CacheState :=
  match (c.hbmPools flat).allocatePromotedReady hash view with
  | (.error e, p) => (.error e, c.setHbmPool flat p)
  | (.ok (gpuBlock, evicted), p) =>
    match (c.setHbmPool flat p).writeBackEvictedPrefix flat evicted hostEnabled with
    | (.error e, c) => (.error e, c)
    | (.ok (), c) => (.ok gpuBlock, c.pushPendingSwapIn flat seqId [hostBlock] [gpuBlock])

/-- A block for a prefix found in HBM: one more reference. -/
def reserveRetained (c : CacheState) (flat blockId : ℕ) : Except PyErr ℕ × CacheState :=
  match (c.hbmPools flat).retainBlock blockId with
  | (.error e, p) => (.error e, c.setHbmPool flat p)
  | (.ok (), p) => (.ok blockId, c.setHbmPool flat p)

/-- One iteration of the loop of `cache_ensure_group_blocks_with_host_prefix`: the block for a view, and whether the
prefix cache is given up from here on.  With `lookup` the view is looked up in HBM, then on the host. -/
def reserveStep (c : CacheState) (flat seqId : ℕ) (hash : ℤ) (view : List ℤ) (lookup hostEnabled : Bool) :
    Except PyErr ℕ × Bool × CacheState :=
  if lookup then
    let hbm := (c.hbmPools flat).lookupReadyPrefixBlock hash view
    let c := c.setHbmPool flat hbm.2
    match hbm.1 with
    | some blockId =>
      let r := c.reserveRetained flat blockId
      (r.1, false, r.2)
    | none =>
      let host := (c.hostPools flat).lookupReadyPrefixBlock hash view
      let c := c.setHostPool flat host.2
      match host.1 with
      | some hostBlock =>
        let r := c.reservePromoted flat seqId hash view hostBlock hostEnabled
        (r.1, false, r.2)
      | none =>
        let r := c.reserveFresh flat hostEnabled
        (r.1, true, r.2)
  else
    let r := c.reserveFresh flat hostEnabled
    (r.1, true, r.2)

/-- The loop of `cache_ensure_group_blocks_with_host_prefix`: `n` more blocks from index `blockIdx` on, with the
running hash and the flag `cache_miss`. -/
def reserveLoop [Xxh3] (flat seqId : ℕ) (tokenIds : List ℤ) (blockSize : ℕ) (hostEnabled : Bool) :
    ℕ → ℕ → ℤ → Bool → CacheState → Except PyErr (List ℕ) × CacheState
  | 0, _, _, _, c => (.ok [], c)
  | n + 1, blockIdx, hash, cacheMiss, c =>
    let view := blockView blockSize tokenIds blockIdx
    let lookup := decide (view.length = blockSize) && !cacheMiss
    let hash := if lookup then computeBlockHash view hash else hash
    match c.reserveStep flat seqId hash view lookup hostEnabled with
    | (.error e, _, c) => (.error e, c)
    | (.ok blockId, cacheMiss, c) =>
      match reserveLoop flat seqId tokenIds blockSize hostEnabled n (blockIdx + 1) hash cacheMiss c with
      | (.error e, c) => (.error e, c)
      | (.ok blocks, c) => (.ok (blockId :: blocks), c)

/-- The loop of `cached_tokens_for_prefix`: the number of leading full blocks found in HBM or on the host. -/
def matchedLoop [Xxh3] (flat : ℕ) (tokenIds : List ℤ) (blockSize : ℕ) :
    ℕ → ℕ → ℤ → CacheState → ℕ × CacheState
  | 0, _, _, c => (0, c)
  | n + 1, blockIdx, hash, c =>
    let view := blockView blockSize tokenIds blockIdx
    if view.length ≠ blockSize then (0, c)
    else
      let hash := computeBlockHash view hash
      let hbm := (c.hbmPools flat).lookupReadyPrefixBlock hash view
      let c := c.setHbmPool flat hbm.2
      if hbm.1.isSome then
        let r := matchedLoop flat tokenIds blockSize n (blockIdx + 1) hash c
        (r.1 + 1, r.2)
      else
        let host := (c.hostPools flat).lookupReadyPrefixBlock hash view
        let c := c.setHostPool flat host.2
        if host.1.isSome then
          let r := matchedLoop flat tokenIds blockSize n (blockIdx + 1) hash c
          (r.1 + 1, r.2)
        else (0, c)

/-- `cached_tokens_for_prefix`. -/
def cachedTokensForPrefix [Xxh3] (c : CacheState) (flat : ℕ) (tokenIds : List ℤ) (tokens : ℤ)
    (blockSize blocksNeeded : ℕ) : ℤ × CacheState :=
  let r := matchedLoop flat tokenIds blockSize blocksNeeded 0 (-1) c
  (min ((r.1 : ℤ) * blockSize) (max (tokens - 1) 0), r.2)

/-- `state_slot`: the slot of the sequence in the first pool that has one. -/
def stateSlot (c : CacheState) (dp seqId : ℕ) : Option ℕ :=
  (List.range dp).findSome? (fun d => (c.stateSlots d).seqSlots seqId)

def hisparseSlot (c : CacheState) (dp seqId : ℕ) : Option ℕ :=
  (List.range dp).findSome? (fun d => (c.hisparseSlots d).seqSlots seqId)

/-- The state slot of a sequence, else one of the DP rank it is assigned to. -/
def ensureStateSlot (c : CacheState) (dp seqId : ℕ) : Option ℕ × CacheState :=
  match c.stateSlot dp seqId with
  | some slot => (some slot, c)
  | none =>
    match c.seqAssignment seqId with
    | none => (none, c)
    | some (dpIdx, _) =>
      let r := (c.stateSlots dpIdx).ensure seqId
      (r.1, { c with stateSlots := Function.update c.stateSlots dpIdx r.2 })

def canEnsureStateSlot (c : CacheState) (dp seqId dpIdx : ℕ) : Bool :=
  (c.stateSlot dp seqId).isSome || (c.stateSlots dpIdx).canEnsure seqId

def ensureHisparseSlot (c : CacheState) (dp seqId : ℕ) : Option ℕ × CacheState :=
  match c.hisparseSlot dp seqId with
  | some slot => (some slot, c)
  | none =>
    match c.seqAssignment seqId with
    | none => (none, c)
    | some (dpIdx, _) =>
      let r := (c.hisparseSlots dpIdx).ensure seqId
      (r.1, { c with hisparseSlots := Function.update c.hisparseSlots dpIdx r.2 })

def canEnsureHisparseSlot (c : CacheState) (dp seqId dpIdx : ℕ) : Bool :=
  (c.hisparseSlot dp seqId).isSome || (c.hisparseSlots dpIdx).canEnsure seqId

/-- The loop of `ensure_compressed_pages` over the pools, collecting the tables by ratio. -/
def ensureCompressedLoop (seqId : ℕ) (neededTokens : ℤ) :
    List CompressedPool → Except PyErr (ℤ → Option (List ℕ)) × List CompressedPool
  | [] => (.ok (fun _ => none), [])
  | p :: pools =>
    match p.ensurePages seqId neededTokens with
    | (.error e, p) => (.error e, p :: pools)
    | (.ok pages, p) =>
      match ensureCompressedLoop seqId neededTokens pools with
      | (.error e, pools) => (.error e, p :: pools)
      | (.ok tables, pools) => (.ok (Function.update tables p.ratio (some pages)), p :: pools)

/-- `ensure_compressed_pages`: the tables of every ratio. Pools before the one that runs out keep their pages. -/
def ensureCompressedPages (c : CacheState) (seqId : ℕ) (neededTokens : ℤ) :
    Except PyErr (ℤ → Option (List ℕ)) × CacheState :=
  let r := ensureCompressedLoop seqId neededTokens c.compressedPools
  (r.1, { c with compressedPools := r.2 })

/-- `compressed_pages`: the tables of the sequence by ratio. -/
def compressedPages (c : CacheState) (seqId : ℕ) : ℤ → Option (List ℕ) := fun ratio =>
  c.compressedPools.findSome? (fun p => if p.ratio = ratio then p.seqPages seqId else none)

def setPrefixCachedTokens (c : CacheState) (seqId : ℕ) (tokens : ℤ) : CacheState :=
  { c with prefixCachedTokensBySeq := Function.update c.prefixCachedTokensBySeq seqId (some tokens) }

end CacheState

end NanoEngine
