import Mathlib.Data.Finset.Basic
import NanoEngine.Cache.BlockPool
import NanoEngine.Sequence

/-!
# NanoEngine.L3.Manager — the block manager with a third cache level

`rust/src/l3.rs`.  The vector `blocks` is a function on block ids with its length `numBlocks`, the sets that are only
asked for membership are finite sets, and `free_block_ids` is the queue with its front at the head.  The engine id, and
the hint and the slot that `allocate` and `deallocate` ignore, are left out.

* `allocateBlock`: the body of the loop of `allocate`; `allocateBlocks j`: its first `j` rounds.
* `allocateBlock_cases`: what a round can do.
-/

namespace NanoEngine

structure L3Block where
  refCount : ℕ
  hash : ℤ
  tokenIds : List ℤ
  deriving DecidableEq

namespace L3Block

def new : L3Block := ⟨0, -1, []⟩

/-- `reset` sets every field. -/
def reset : L3Block := ⟨0, -1, []⟩

def update (b : L3Block) (hash : ℤ) (tokens : List ℤ) : L3Block := ⟨max b.refCount 1, hash, tokens⟩

end L3Block

inductive L3Err
  /-- `"Block table is not empty"` -/
  | blockTableNotEmpty
  /-- `"No free blocks available"` -/
  | noFreeBlocks
  /-- `"invalid block_id={block_id}"` -/
  | invalidBlockId (blockId : ℕ)
  deriving DecidableEq

structure BlockManager where
  groupId : ℤ
  blockSize : ℕ
  numBlocks : ℕ
  blocks : ℕ → L3Block
  hashToBlockId : ℤ → Option ℕ
  freeBlockIds : List ℕ
  usedBlockIds : Finset ℕ
  l3Enabled : Bool
  prefixCachingEnabled : Bool
  l3ResidentHashes : Finset ℤ
  pendingLoads : List (ℤ × ℕ)
  pendingOffloads : List (ℤ × ℕ)

/-- The variables of the loop of `allocate`. -/
structure AllocLoop where
  h : ℤ := -1
  cacheMiss : Bool := false
  numPrefixCached : ℕ := 0
  newTable : List ℕ := []
  deriving DecidableEq

namespace BlockManager

def new (groupId numBlocks blockSize : ℤ) : BlockManager where
  groupId := groupId
  blockSize := (max blockSize 1).toNat
  numBlocks := (max numBlocks 0).toNat
  blocks := fun _ => L3Block.new
  hashToBlockId := fun _ => none
  freeBlockIds := List.range (max numBlocks 0).toNat
  usedBlockIds := ∅
  l3Enabled := false
  prefixCachingEnabled := true
  l3ResidentHashes := ∅
  pendingLoads := []
  pendingOffloads := []

def setL3Enabled (m : BlockManager) (enabled : Bool) : BlockManager := { m with l3Enabled := enabled }

def setPrefixCachingEnabled (m : BlockManager) (enabled : Bool) : BlockManager :=
  { m with prefixCachingEnabled := enabled }

def setL3ResidentHashes (m : BlockManager) (hashes : List ℤ) : BlockManager :=
  { m with l3ResidentHashes := hashes.toFinset }

def markL3Resident (m : BlockManager) (hashes : List ℤ) : BlockManager :=
  { m with l3ResidentHashes := m.l3ResidentHashes ∪ hashes.toFinset }

/-- The entries whose block still has the hash they were queued with. -/
def current (m : BlockManager) (entries : List (ℤ × ℕ)) : List (ℤ × ℕ) :=
  entries.filter fun e => decide (e.2 < m.numBlocks) && decide ((m.blocks e.2).hash = e.1)

def drainPendingLoads (m : BlockManager) : List (ℤ × ℕ) × BlockManager :=
  (m.current m.pendingLoads, { m with pendingLoads := [] })

def drainPendingOffloads (m : BlockManager) : List (ℤ × ℕ) × BlockManager :=
  (m.current m.pendingOffloads, { m with pendingOffloads := [] })

def setBlock (m : BlockManager) (blockId : ℕ) (block : L3Block) : BlockManager :=
  { m with blocks := Function.update m.blocks blockId block }

def markBlockUsed (m : BlockManager) (blockId : ℕ) : Except L3Err Unit × BlockManager :=
  if m.numBlocks ≤ blockId then (.error (.invalidBlockId blockId), m)
  else
    (.ok (), { m with
      usedBlockIds := insert blockId m.usedBlockIds
      freeBlockIds := m.freeBlockIds.filter fun id => decide (id ≠ blockId) })

def allocateFreshBlock (m : BlockManager) : Except L3Err ℕ × BlockManager :=
  match m.freeBlockIds with
  | [] => (.error .noFreeBlocks, m)
  | blockId :: rest =>
    match markBlockUsed { m with freeBlockIds := rest } blockId with
    | (.error e, m) => (.error e, m)
    | (.ok _, m) => (.ok blockId, m.setBlock blockId { L3Block.reset with refCount := 1 })

def releaseOneBlock (m : BlockManager) (blockId : ℕ) : BlockManager :=
  if m.numBlocks ≤ blockId then m
  else
    let block := m.blocks blockId
    let m := m.setBlock blockId { block with refCount := block.refCount - 1 }
    if block.refCount - 1 = 0 ∧ blockId ∈ m.usedBlockIds then
      { m with
        usedBlockIds := m.usedBlockIds.erase blockId
        pendingOffloads :=
          if m.l3Enabled && decide (block.hash ≠ -1) then m.pendingOffloads ++ [(block.hash, blockId)]
          else m.pendingOffloads
        freeBlockIds := m.freeBlockIds ++ [blockId] }
    else m

def numBlocksForSeq (m : BlockManager) (seq : Sequence) : ℕ :=
  ((max seq.numTokens 1 + m.blockSize - 1) / m.blockSize).toNat

/-- The sequence has a table of this manager, or of any other. -/
def holdsTable (m : BlockManager) (seq : Sequence) : Bool :=
  ((seq.activeBlockTables (max m.groupId 0)).map fun table => !table.isEmpty).getD false ||
    !seq.activeBlockTable.isEmpty

def deallocate (m : BlockManager) (seq : Sequence) : BlockManager × Sequence :=
  let groupId := max m.groupId 0
  let table := (seq.activeBlockTables groupId).getD seq.activeBlockTable
  (table.reverse.foldl releaseOneBlock m, { seq with
    activeBlockTables := Function.update seq.activeBlockTables groupId none
    activeBlockTable := []
    numCachedTokens := 0 })

/-- The block that the index gives for a hash, if it has these tokens: `gpu_hit`. -/
def gpuHit (m : BlockManager) (h : ℤ) (view : List ℤ) : Option ℕ :=
  (m.hashToBlockId h).filter fun blockId =>
    decide (blockId < m.numBlocks) && decide ((m.blocks blockId).tokenIds = view)

/-- The block gets the hash, if there is one, and is entered in the index. -/
def record (m : BlockManager) (h : ℤ) (view : List ℤ) (blockId : ℕ) : BlockManager :=
  if h ≠ -1 then
    { m.setBlock blockId ((m.blocks blockId).update h view) with
      hashToBlockId := Function.update m.hashToBlockId h (some blockId) }
  else m

/-- What `allocate_fresh_block` does with the first free block. -/
def takeFree (m : BlockManager) (blockId : ℕ) (rest : List ℕ) : BlockManager :=
  { m with
    blocks := Function.update m.blocks blockId ⟨1, -1, []⟩
    freeBlockIds := rest.filter fun id => decide (id ≠ blockId)
    usedBlockIds := insert blockId m.usedBlockIds }

/-- What a hit does with its block. -/
def reuse (m : BlockManager) (blockId : ℕ) : BlockManager :=
  { m with
    blocks := Function.update m.blocks blockId
      { m.blocks blockId with refCount := (m.blocks blockId).refCount + 1 }
    freeBlockIds :=
      if blockId ∈ m.usedBlockIds then m.freeBlockIds else m.freeBlockIds.filter fun id => decide (id ≠ blockId)
    usedBlockIds := insert blockId m.usedBlockIds }

/-- A load of the block is queued. -/
def queueLoad (m : BlockManager) (h : ℤ) (blockId : ℕ) : BlockManager :=
  { m with pendingLoads := m.pendingLoads ++ [(h, blockId)] }

/-- The free blocks are blocks of the manager. -/
def FreeInRange (m : BlockManager) : Prop := ∀ b ∈ m.freeBlockIds, b < m.numBlocks

theorem allocateFreshBlock_nil {m : BlockManager} (h : m.freeBlockIds = []) :
    m.allocateFreshBlock = (.error .noFreeBlocks, m) := by
  unfold allocateFreshBlock
  split
  · rfl
  · rename_i heq
    rw [h] at heq
    cases heq

theorem allocateFreshBlock_cons {m : BlockManager} (hfree : m.FreeInRange) {b : ℕ} {rest : List ℕ}
    (h : m.freeBlockIds = b :: rest) : m.allocateFreshBlock = (.ok b, m.takeFree b rest) := by
  have hb : ¬ m.numBlocks ≤ b := Nat.not_le.2 (hfree b (h ▸ List.mem_cons_self))
  unfold allocateFreshBlock
  split
  · rename_i heq
    rw [h] at heq
    cases heq
  · rename_i blockId rest' heq
    rw [h] at heq
    cases heq
    simp only [markBlockUsed, if_neg hb]
    rfl

theorem gpuHit_eq_some {m : BlockManager} {h : ℤ} {view : List ℤ} {b : ℕ} :
    m.gpuHit h view = some b ↔ m.hashToBlockId h = some b ∧ b < m.numBlocks ∧ (m.blocks b).tokenIds = view := by
  simp [gpuHit, Option.filter_eq_some_iff]

variable [Xxh3]

/-- The running hash in `allocate`: a block that is not full has none. -/
def nextHash (m : BlockManager) (view : List ℤ) (h : ℤ) : ℤ :=
  if m.prefixCachingEnabled && decide (view.length = m.blockSize) then computeBlockHash view h else -1

/-- The block is in the third level and nowhere else, and no block before it was missed. -/
def l3Hit (m : BlockManager) (view : List ℤ) (l : AllocLoop) : Bool :=
  let h := m.nextHash view l.h
  !l.cacheMiss && (m.gpuHit h view).isNone && (m.l3Enabled && decide (h ≠ -1) && decide (h ∈ m.l3ResidentHashes))

/-- `cache_miss` of the round. -/
def missed (m : BlockManager) (view : List ℤ) (l : AllocLoop) : Bool :=
  l.cacheMiss || ((m.gpuHit (m.nextHash view l.h) view).isNone && !m.l3Hit view l)

/-- One round of the loop of `allocate`, for a block with these tokens. -/
def allocateBlock (m : BlockManager) (view : List ℤ) (l : AllocLoop) : Except L3Err AllocLoop × BlockManager :=
  let h := m.nextHash view l.h
  let l3Hit := m.l3Hit view l
  let cacheMiss := m.missed view l
  match (if cacheMiss || l3Hit then none else m.gpuHit h view) with
  | none =>
    -- also the last branch of the source, in which `cache_miss` would be set again
    match m.allocateFreshBlock with
    | (.error e, m) => (.error e, m)
    | (.ok blockId, m) =>
      let m := if l3Hit then { m with pendingLoads := m.pendingLoads ++ [(h, blockId)] } else m
      (.ok { h := h
             cacheMiss := cacheMiss
             numPrefixCached := if l3Hit then l.numPrefixCached + 1 else l.numPrefixCached
             newTable := l.newTable ++ [blockId] }, m.record h view blockId)
  | some blockId =>
    match (if blockId ∈ m.usedBlockIds then (.ok (), m) else m.markBlockUsed blockId) with
    | (.error e, m) => (.error e, m)
    | (.ok _, m) =>
      let m := m.setBlock blockId { m.blocks blockId with refCount := (m.blocks blockId).refCount + 1 }
      (.ok { h := h
             cacheMiss := cacheMiss
             numPrefixCached := if view.length = m.blockSize then l.numPrefixCached + 1 else l.numPrefixCached
             newTable := l.newTable ++ [blockId] }, m.record h view blockId)

/-- The first `n` rounds. -/
def allocateBlocks (m : BlockManager) (tokenIds : List ℤ) : ℕ → Except L3Err AllocLoop × BlockManager
  | 0 => (.ok {}, m)
  | n + 1 =>
    match m.allocateBlocks tokenIds n with
    | (.error e, m) => (.error e, m)
    | (.ok l, m) => m.allocateBlock (blockView m.blockSize tokenIds n) l

/-- What `allocate` writes to the sequence after its loop. -/
def withTable (m : BlockManager) (seq : Sequence) (l : AllocLoop) : Sequence :=
  { seq with
    activeBlockTable := l.newTable
    activeBlockTables := Function.update seq.activeBlockTables (max m.groupId 0) (some l.newTable)
    numCachedTokens := min (l.numPrefixCached * m.blockSize : ℤ) (max (seq.numTokens - 1) 0) }

/-- `allocate`, with the sequence it writes. -/
def allocate (m : BlockManager) (seq : Sequence) : Except L3Err Unit × BlockManager × Sequence :=
  if m.holdsTable seq then (.error .blockTableNotEmpty, m, seq)
  else
    match m.allocateBlocks seq.tokenIds (m.numBlocksForSeq seq) with
    | (.error e, m) => (.error e, m, seq)
    | (.ok l, m) => (.ok (), m, m.withTable seq l)

/-- The loop of `count_active_prefix_hits_inner`, from block `blockIdx` on. -/
def activeHitsLoop (m : BlockManager) (tokenIds : List ℤ) : ℕ → ℕ → ℤ → ℕ
  | 0, _, _ => 0
  | n + 1, blockIdx, h =>
    let view := blockView m.blockSize tokenIds blockIdx
    if view.length ≠ m.blockSize then 0
    else
      let h := computeBlockHash view h
      match m.hashToBlockId h with
      | none => 0
      | some blockId =>
        if blockId ∈ m.usedBlockIds ∧ blockId < m.numBlocks ∧ (m.blocks blockId).tokenIds = view then
          activeHitsLoop m tokenIds n (blockIdx + 1) h + 1
        else 0

def countActivePrefixHits (m : BlockManager) (seq : Sequence) : ℕ :=
  if m.prefixCachingEnabled then m.activeHitsLoop seq.tokenIds (m.numBlocksForSeq seq) 0 (-1) else 0

/-- `can_allocate`; `none` is its `-1`. -/
def canAllocate (m : BlockManager) (seq : Sequence) : Option ℕ :=
  let hits := m.countActivePrefixHits seq
  let needed := m.numBlocksForSeq seq - hits
  if needed ≤ m.freeBlockIds.length then some hits else none

/-! ## What a round of `allocate` can do -/

/-- The loop after a round that hands out block `b`. -/
def nextLoop (m : BlockManager) (view : List ℤ) (l : AllocLoop) (b : ℕ) (miss hit : Bool) : AllocLoop where
  h := m.nextHash view l.h
  cacheMiss := miss
  numPrefixCached := if hit then l.numPrefixCached + 1 else l.numPrefixCached
  newTable := l.newTable ++ [b]

inductive Round (m : BlockManager) (view : List ℤ) (l : AllocLoop) : Prop
  | out (hneeds : m.missed view l = true ∨ m.l3Hit view l = true) (hfree : m.freeBlockIds = [])
      (heq : m.allocateBlock view l = (.error .noFreeBlocks, m))
  | miss (b : ℕ) (rest : List ℕ) (hl3 : m.l3Hit view l = false) (hmiss : m.missed view l = true)
      (hfree : m.freeBlockIds = b :: rest)
      (heq : m.allocateBlock view l =
        (.ok (m.nextLoop view l b true false), (m.takeFree b rest).record (m.nextHash view l.h) view b))
  | load (b : ℕ) (rest : List ℕ) (hl3 : m.l3Hit view l = true) (hfree : m.freeBlockIds = b :: rest)
      (heq : m.allocateBlock view l = (.ok (m.nextLoop view l b false true),
        ((m.takeFree b rest).queueLoad (m.nextHash view l.h) b).record (m.nextHash view l.h) view b))
  | hit (b : ℕ) (hmiss : l.cacheMiss = false) (hhit : m.gpuHit (m.nextHash view l.h) view = some b)
      (heq : m.allocateBlock view l = (.ok (m.nextLoop view l b false (decide (view.length = m.blockSize))),
        (m.reuse b).record (m.nextHash view l.h) view b))

theorem l3Hit_eq_true {m : BlockManager} {view : List ℤ} {l : AllocLoop} :
    m.l3Hit view l = true ↔ l.cacheMiss = false ∧
      m.gpuHit (m.nextHash view l.h) view = none ∧ m.l3Enabled = true ∧
      m.nextHash view l.h ≠ -1 ∧ m.nextHash view l.h ∈ m.l3ResidentHashes := by
  simp [l3Hit, and_assoc]

theorem missed_eq_false {m : BlockManager} {view : List ℤ} {l : AllocLoop} :
    m.missed view l = false ↔
      l.cacheMiss = false ∧ ((∃ b, m.gpuHit (m.nextHash view l.h) view = some b) ∨ m.l3Hit view l = true) := by
  cases hl3 : m.l3Hit view l <;> cases hhit : m.gpuHit (m.nextHash view l.h) view <;> simp [missed, hl3, hhit]

theorem allocateBlock_cases {m : BlockManager} (hrange : m.FreeInRange) (view : List ℤ) (l : AllocLoop) :
    m.Round view l := by
  -- a place that was missed, or that L3 has, takes a fresh block; any other is a GPU hit
  by_cases hneeds : m.missed view l = true ∨ m.l3Hit view l = true
  · have hnone : (if m.missed view l || m.l3Hit view l then none else m.gpuHit (m.nextHash view l.h) view) = none :=
      if_pos (by simpa using hneeds)
    cases hfree : m.freeBlockIds with
    | nil =>
      refine .out hneeds hfree ?_
      unfold allocateBlock
      dsimp only
      rw [hnone, allocateFreshBlock_nil hfree]
    | cons b rest =>
      cases hl3 : m.l3Hit view l with
      | true =>
        refine .load b rest hl3 hfree ?_
        have hmiss : m.missed view l = false :=
          missed_eq_false.2 ⟨(l3Hit_eq_true.1 hl3).1, .inr hl3⟩
        unfold allocateBlock
        dsimp only
        rw [hnone, allocateFreshBlock_cons hrange hfree]
        simp only [hl3, hmiss, if_true]
        rfl
      | false =>
        have hmiss : m.missed view l = true := hneeds.resolve_right (by simp [hl3])
        refine .miss b rest hl3 hmiss hfree ?_
        unfold allocateBlock
        dsimp only
        rw [hnone, allocateFreshBlock_cons hrange hfree]
        simp only [hl3, hmiss, Bool.false_eq_true, if_false]
        rfl
  · obtain ⟨hmiss, hl3⟩ := not_or.1 hneeds
    rw [Bool.not_eq_true] at hmiss hl3
    obtain ⟨hold, ⟨b, hhit⟩ | hl3'⟩ := missed_eq_false.1 hmiss
    · refine .hit b hold hhit ?_
      have hb : ¬ m.numBlocks ≤ b := Nat.not_le.2 (gpuHit_eq_some.1 hhit).2.1
      have hsome : (if m.missed view l || m.l3Hit view l then none else m.gpuHit (m.nextHash view l.h) view) =
        some b := by
        rw [hmiss, hl3]
        exact hhit
      unfold allocateBlock
      dsimp only
      rw [hsome]
      by_cases hused : b ∈ m.usedBlockIds
      · simp only [if_pos hused, hmiss, nextLoop, reuse, Finset.insert_eq_of_mem hused, decide_eq_true_eq]
        rfl
      · simp only [if_neg hused, markBlockUsed, if_neg hb, hmiss, nextLoop, reuse, decide_eq_true_eq]
        rfl
    · rw [hl3] at hl3'
      cases hl3'

theorem allocate_holding {m : BlockManager} {seq : Sequence} (h : m.holdsTable seq = true) :
    m.allocate seq = (.error .blockTableNotEmpty, m, seq) := if_pos h

theorem allocate_ok {m m' : BlockManager} {seq : Sequence} {l : AllocLoop} (h : m.holdsTable seq = false)
    (hok : m.allocateBlocks seq.tokenIds (m.numBlocksForSeq seq) = (.ok l, m')) :
    m.allocate seq = (.ok (), m', m'.withTable seq l) := by
  rw [allocate, h, hok]
  rfl

theorem allocate_error {m m' : BlockManager} {seq : Sequence} {e : L3Err} (h : m.holdsTable seq = false)
    (herr : m.allocateBlocks seq.tokenIds (m.numBlocksForSeq seq) = (.error e, m')) :
    m.allocate seq = (.error e, m', seq) := by
  rw [allocate, h, herr]
  rfl

end BlockManager

end NanoEngine
