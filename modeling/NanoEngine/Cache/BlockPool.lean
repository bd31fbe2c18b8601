import Mathlib.Data.Int.Basic
import Mathlib.Data.List.Basic
import Mathlib.Logic.Equiv.List
import Mathlib.Logic.Function.Basic
import Mathlib.Tactic.Common

/-!
# NanoEngine.Cache.BlockPool — the block pool and its prefix index

`rust/src/cache/table/block/pool.rs` and `prefix.rs`.

* `Xxh3.digest seed tokens` stands for the hash function of the `xxhash_rust` crate.
* The vectors `blocks` is a function on block ids with its length `numBlocks`; ids outside are never touched.
* `free_blocks` is used as a stack at its end: here the head of the list is the end of the vector.  `ready_lru` is
  used as a queue: here the head is the oldest entry.
* A function that takes `&mut self` returns the new pool next to its result, also when the result is an error.
-/

namespace NanoEngine

/-- The third-party hash: `Xxh3::with_seed(seed)` fed with the little-endian bytes of the tokens. -/
class Xxh3 where
  digest : ℤ → List ℤ → ℤ

/-- A hash without collisions, for the runs that are evaluated. -/
@[reducible] def codeHash : Xxh3 := ⟨fun seed tokens => (Encodable.encode (seed, tokens) : ℤ) + 1⟩

/-- `compute_block_hash`. -/
def computeBlockHash [Xxh3] (tokens : List ℤ) (prefixHash : ℤ) : ℤ :=
  Xxh3.digest (if prefixHash = -1 then 0 else prefixHash) tokens

/-- `block_view` and `cache_block_token_view`: the tokens of block `blockIdx`, short or empty at the end. -/
def blockView (blockSize : ℕ) (tokenIds : List ℤ) (blockIdx : ℕ) : List ℤ :=
  (tokenIds.drop (blockIdx * blockSize)).take blockSize

/-- The hash of the first `n` blocks of a token list, chained as all loops of the source chain it. -/
def chainHash [Xxh3] (blockSize : ℕ) (tokenIds : List ℤ) : ℕ → ℤ
  | 0 => -1
  | n + 1 => computeBlockHash (blockView blockSize tokenIds n) (chainHash blockSize tokenIds n)

/-- The errors raised by the scheduler and the cache, one constructor for each text. -/
inductive PyErr
  /-- `"out of KV cache blocks"` -/
  | outOfKvCacheBlocks
  /-- `"out of host KV cache blocks"` -/
  | outOfHostKvCacheBlocks
  /-- `"invalid block_id={block_id}"` -/
  | invalidBlockId (blockId : ℕ)
  /-- `"out of KV cache blocks: seq_id= dp_idx= group_id= need="` -/
  | outOfKvCacheBlocksFor (seqId dpIdx groupId need : ℕ)
  /-- `"out of KV cache blocks while restoring host KV: seq_id= dp_idx= group_id="` -/
  | outOfKvCacheBlocksRestoring (seqId dpIdx groupId : ℕ)
  /-- `"out of state slots: seq_id="` -/
  | outOfStateSlots (seqId : ℕ)
  /-- `"out of HiSparse slots: seq_id="` -/
  | outOfHisparseSlots (seqId : ℕ)
  /-- `"out of compressed cache pages: seq_id= ratio= need= have="` -/
  | outOfCompressedPages (seqId : ℕ) (ratio : ℤ) (need have_ : ℕ)
  deriving DecidableEq, Repr

inductive BlockState
  | empty
  | pending
  | ready
  deriving DecidableEq, Repr

structure BlockMeta where
  refCount : ℕ
  hash : ℤ
  tokenIds : List ℤ
  state : BlockState
  deriving DecidableEq

/-- What is left of a `Ready` block that an allocation hands out again. -/
structure EvictedBlock where
  blockId : ℕ
  hash : ℤ
  tokenIds : List ℤ
  deriving DecidableEq

namespace BlockMeta

def new : BlockMeta := ⟨0, -1, [], .empty⟩

/-- `reset_pending` sets every field. -/
def resetPending : BlockMeta := ⟨1, -1, [], .pending⟩

def readyMatches (m : BlockMeta) (tokens : List ℤ) (hash : ℤ) : Bool :=
  decide (m.state = .ready) && decide (m.hash = hash) && decide (m.tokenIds = tokens)

end BlockMeta

structure BlockPool where
  blockSize : ℕ
  numBlocks : ℕ
  blocks : ℕ → BlockMeta
  freeBlocks : List ℕ
  seqBlocks : ℕ → Option (List ℕ)
  hashToBlockId : ℤ → Option ℕ
  readyLru : List ℤ
  prefixCachingEnabled : Bool

namespace BlockPool

/-- `BlockPool::new`: block `0` is handed out first. -/
def new (numBlocks blockSize : ℤ) : BlockPool where
  blockSize := (max blockSize 1).toNat
  numBlocks := numBlocks.toNat
  blocks := fun _ => BlockMeta.new
  freeBlocks := List.range numBlocks.toNat
  seqBlocks := fun _ => none
  hashToBlockId := fun _ => none
  readyLru := []
  prefixCachingEnabled := true

def setPrefixCachingEnabled (p : BlockPool) (enabled : Bool) : BlockPool :=
  { p with prefixCachingEnabled := enabled }

def numFreeBlocks (p : BlockPool) : ℕ := p.freeBlocks.length

def hasSeq (p : BlockPool) (seqId : ℕ) : Bool := (p.seqBlocks seqId).isSome

/-- `blocks.get(block_id)`. -/
def getBlock (p : BlockPool) (blockId : ℕ) : Option BlockMeta :=
  if blockId < p.numBlocks then some (p.blocks blockId) else none

def setBlock (p : BlockPool) (blockId : ℕ) (m : BlockMeta) : BlockPool :=
  { p with blocks := Function.update p.blocks blockId m }

def insertSeqBlocks (p : BlockPool) (seqId : ℕ) (blocks : List ℕ) : BlockPool :=
  { p with
    freeBlocks := p.freeBlocks.filter (fun id => decide (id ∉ blocks))
    seqBlocks := Function.update p.seqBlocks seqId (some blocks) }

/-- `release_one`: drop one reference; a block without references goes back on the free list. -/
def releaseOne (p : BlockPool) (blockId : ℕ) : BlockPool :=
  if blockId < p.numBlocks then
    let m := p.blocks blockId
    let p := p.setBlock blockId { m with refCount := m.refCount - 1 }
    if m.refCount - 1 = 0 ∧ blockId ∉ p.freeBlocks then
      { p with freeBlocks := blockId :: p.freeBlocks }
    else p
  else p

/-- `remove_seq` (no caller uses the returned table). -/
def removeSeq (p : BlockPool) (seqId : ℕ) : BlockPool :=
  match p.seqBlocks seqId with
  | none => p
  | some blocks =>
    blocks.foldl releaseOne { p with seqBlocks := Function.update p.seqBlocks seqId none }

def numBlocksForTokens (p : BlockPool) (tokens : ℤ) : ℕ :=
  ((max tokens 1 + p.blockSize - 1) / p.blockSize).toNat

def touchReadyHash (p : BlockPool) (hash : ℤ) : BlockPool :=
  if hash = -1 then p
  else { p with readyLru := p.readyLru.filter (fun h => decide (h ≠ hash)) ++ [hash] }

def lookupReadyBlock (p : BlockPool) (hash : ℤ) (tokens : List ℤ) : Option ℕ :=
  match p.hashToBlockId hash with
  | none => none
  | some blockId =>
    match p.getBlock blockId with
    | none => none
    | some m => if m.readyMatches tokens hash then some blockId else none

def lookupReadyPrefixBlock (p : BlockPool) (hash : ℤ) (tokens : List ℤ) : Option ℕ × BlockPool :=
  match p.lookupReadyBlock hash tokens with
  | none => (none, p)
  | some blockId => (some blockId, p.touchReadyHash hash)

def retainBlock (p : BlockPool) (blockId : ℕ) : Except PyErr Unit × BlockPool :=
  if blockId < p.numBlocks then
    let m := p.blocks blockId
    (.ok (), { p.setBlock blockId { m with refCount := m.refCount + 1 } with
      freeBlocks := p.freeBlocks.filter (fun id => decide (id ≠ blockId)) })
  else (.error (.invalidBlockId blockId), p)

def evictedReadyMeta (p : BlockPool) (blockId : ℕ) : Option EvictedBlock :=
  match p.getBlock blockId with
  | none => none
  | some m =>
    if m.state ≠ .ready ∨ m.hash = -1 ∨ m.tokenIds = [] then none
    else some ⟨blockId, m.hash, m.tokenIds⟩

/-- `allocate_fresh_with_eviction`: the block popped may still be `Ready`; then its index entry goes. -/
def allocateFreshWithEviction (p : BlockPool) : Except PyErr (ℕ × Option EvictedBlock) × BlockPool :=
  match p.freeBlocks with
  | [] => (.error .outOfKvCacheBlocks, p)
  | blockId :: free =>
    let evicted := p.evictedReadyMeta blockId
    let p := { p with freeBlocks := free }
    let p := match evicted with
      | none => p
      | some e => { p with
          hashToBlockId := Function.update p.hashToBlockId e.hash none
          readyLru := p.readyLru.filter (fun h => decide (h ≠ e.hash)) }
    (.ok (blockId, evicted), p.setBlock blockId BlockMeta.resetPending)

/-- `allocate_promoted_ready`: a fresh block recorded `Ready` before its bytes arrive. -/
def allocatePromotedReady (p : BlockPool) (hash : ℤ) (tokens : List ℤ) :
    Except PyErr (ℕ × Option EvictedBlock) × BlockPool :=
  match p.allocateFreshWithEviction with
  | (.error e, p) => (.error e, p)
  | (.ok (blockId, evicted), p) =>
    let p := p.setBlock blockId ⟨1, hash, tokens, .ready⟩
    let p := { p with hashToBlockId := Function.update p.hashToBlockId hash (some blockId) }
    (.ok (blockId, evicted), p.touchReadyHash hash)

/-- The `while` loop of `evict_ready_cache_block` over the queue `ready_lru`. -/
def evictLoop (p : BlockPool) : List ℤ → Option ℕ × BlockPool
  | [] => (none, { p with readyLru := [] })
  | hash :: lru =>
    match p.hashToBlockId hash with
    | none => evictLoop p lru
    | some blockId =>
      let removed := { p with hashToBlockId := Function.update p.hashToBlockId hash none, readyLru := lru }
      if blockId < p.numBlocks then
        let m := p.blocks blockId
        if m.refCount = 0 ∧ m.state = .ready then
          (some blockId, removed.setBlock blockId { m with hash := -1, tokenIds := [], state := .empty })
        -- the entry is put back into the index, but not into the queue
        else evictLoop p lru
      else evictLoop removed lru

def evictReadyCacheBlock (p : BlockPool) : Option ℕ × BlockPool := p.evictLoop p.readyLru

/-- `store_ready_cache_block`: host pools keep the prefixes evicted from HBM, without a reference. -/
def storeReadyCacheBlock (p : BlockPool) (hash : ℤ) (tokens : List ℤ) : Except PyErr ℕ × BlockPool :=
  match p.lookupReadyBlock hash tokens with
  | some blockId => (.ok blockId, p.touchReadyHash hash)
  | none =>
    let taken : Option ℕ × BlockPool := match p.freeBlocks with
      | blockId :: free => (some blockId, { p with freeBlocks := free })
      | [] => p.evictReadyCacheBlock
    match taken with
    | (none, p) => (.error .outOfHostKvCacheBlocks, p)
    | (some blockId, p) =>
      let m := p.blocks blockId
      let p := if m.hash ≠ -1 ∧ p.hashToBlockId m.hash = some blockId then
          { p with
            hashToBlockId := Function.update p.hashToBlockId m.hash none
            readyLru := p.readyLru.filter (fun h => decide (h ≠ m.hash)) }
        else p
      let p := p.setBlock blockId ⟨0, hash, tokens, .ready⟩
      let p := { p with hashToBlockId := Function.update p.hashToBlockId hash (some blockId) }
      (.ok blockId, p.touchReadyHash hash)

/-- The loop of `grow_existing`: `n` more blocks for `seqId`. -/
def growLoop (seqId : ℕ) : ℕ → BlockPool → Except PyErr Unit × BlockPool
  | 0, p => (.ok (), p)
  | n + 1, p =>
    match p.allocateFreshWithEviction with
    | (.error e, p) => (.error e, p)
    | (.ok (blockId, _), p) =>
      growLoop seqId n { p with
        seqBlocks := Function.update p.seqBlocks seqId (some ((p.seqBlocks seqId).getD [] ++ [blockId])) }

def growExisting (p : BlockPool) (seqId needed : ℕ) : Except PyErr (List ℕ) × BlockPool :=
  match growLoop seqId (needed - ((p.seqBlocks seqId).getD []).length) p with
  | (.error e, p) => (.error e, p)
  | (.ok (), p) => (.ok ((p.seqBlocks seqId).getD []), p)

/-- The loop of `plan_new_blocks` from block `blockIdx` on, with the running hash and the miss flag. -/
def planLoop [Xxh3] (p : BlockPool) (tokenIds : List ℤ) : ℕ → ℕ → ℤ → Bool → List (Option ℕ)
  | 0, _, _, _ => []
  | n + 1, blockIdx, h, cacheMiss =>
    let view := blockView p.blockSize tokenIds blockIdx
    if view.length = p.blockSize ∧ cacheMiss = false then
      let h := computeBlockHash view h
      match p.lookupReadyBlock h view with
      | some blockId => some blockId :: planLoop p tokenIds n (blockIdx + 1) h false
      | none => none :: planLoop p tokenIds n (blockIdx + 1) h true
    else none :: planLoop p tokenIds n (blockIdx + 1) h true

def planNewBlocks [Xxh3] (p : BlockPool) (tokenIds : List ℤ) (needed : ℕ) (usePrefixCache : Bool) :
    List (Option ℕ) :=
  p.planLoop tokenIds needed 0 (-1) (!usePrefixCache || !p.prefixCachingEnabled)

/-- The second loop of `ensure_blocks`: retain what the plan found, allocate the rest. -/
def takePlan : List (Option ℕ) → BlockPool → Except PyErr (List ℕ) × BlockPool
  | [], p => (.ok [], p)
  | some blockId :: plan, p =>
    match p.retainBlock blockId with
    | (.error e, p) => (.error e, p)
    | (.ok (), p) =>
      match takePlan plan p with
      | (.error e, p) => (.error e, p)
      | (.ok out, p) => (.ok (blockId :: out), p)
  | none :: plan, p =>
    match p.allocateFreshWithEviction with
    | (.error e, p) => (.error e, p)
    | (.ok (blockId, _), p) =>
      match takePlan plan p with
      | (.error e, p) => (.error e, p)
      | (.ok out, p) => (.ok (blockId :: out), p)

def ensureBlocks [Xxh3] (p : BlockPool) (seqId : ℕ) (tokenIds : List ℤ) (tokens : ℤ)
    (usePrefixCache : Bool) : Except PyErr (List ℕ) × BlockPool :=
  let needed := p.numBlocksForTokens tokens
  if p.hasSeq seqId then p.growExisting seqId needed
  else
    let plan := p.planNewBlocks tokenIds needed usePrefixCache
    if p.freeBlocks.length < (plan.filter Option.isNone).length then (.error .outOfKvCacheBlocks, p)
    else match takePlan plan p with
      | (.error e, p) => (.error e, p)
      | (.ok out, p) => (.ok out, { p with seqBlocks := Function.update p.seqBlocks seqId (some out) })

/-- The loop of `commit_ready` over the remaining blocks of the table, from block `blockIdx` on. -/
def commitLoop [Xxh3] (tokenIds : List ℤ) : List ℕ → ℕ → ℤ → BlockPool → BlockPool
  | [], _, _, p => p
  | blockId :: table, blockIdx, h, p =>
    let view := blockView p.blockSize tokenIds blockIdx
    if view.length ≠ p.blockSize then p
    else
      let h := computeBlockHash view h
      match p.getBlock blockId with
      | none => commitLoop tokenIds table (blockIdx + 1) h p
      | some m =>
        if m.readyMatches view h then
          commitLoop tokenIds table (blockIdx + 1) h
            { p with hashToBlockId := Function.update p.hashToBlockId h (some blockId) }
        else
          let p := p.setBlock blockId { m with hash := h, tokenIds := view, state := .ready }
          let p := { p with hashToBlockId := Function.update p.hashToBlockId h (some blockId) }
          commitLoop tokenIds table (blockIdx + 1) h (p.touchReadyHash h)

def commitReady [Xxh3] (p : BlockPool) (seqId : ℕ) (tokenIds : List ℤ) (committedTokens : ℤ) : BlockPool :=
  match p.seqBlocks seqId with
  | none => p
  | some table =>
    let fullBlocks := (max committedTokens 0 / p.blockSize).toNat
    commitLoop tokenIds (table.take fullBlocks) 0 (-1) p

end BlockPool

end NanoEngine
