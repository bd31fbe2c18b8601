import NanoEngine.Lib.Counting
import NanoEngine.Lib.Transition
import NanoEngine.Cache.State

/-!
# NanoEngine.Cache.PoolInvariant — the redundant structures of a block pool agree

* `Sound p held`: reference counts are the occurrences in the tables and in `held`, the blocks that a call in progress
  has taken and not yet entered in a table; the free list, the index and the queue have no duplicates or stray ids.
* `Hbm p held`: in an HBM pool a block without references is free.
* `Host p held`: in a host pool a block without references is free or a stored prefix, and the index, the queue and
  the stored prefixes determine each other.
-/

namespace NanoEngine

open Counting Transition

namespace BlockPool

/-- The table of a sequence, empty without an entry. -/
def table (p : BlockPool) (seqId : ℕ) : List ℕ := (p.seqBlocks seqId).getD []

theorem table_of_not_hasSeq {p : BlockPool} {seqId : ℕ} (h : ¬ p.hasSeq seqId = true) : p.table seqId = [] := by
  unfold hasSeq at h
  unfold table
  rw [Option.not_isSome_iff_eq_none.1 h]
  rfl

/-- How often a block occurs in the tables. -/
noncomputable def occurrences (p : BlockPool) (b : ℕ) : ℕ := familyCount p.seqBlocks b

structure Sound (p : BlockPool) (held : List ℕ) : Prop where
  finite_tables : {s | p.seqBlocks s ≠ none}.Finite
  table_nodup : ∀ seqId, (p.table seqId).Nodup
  table_lt : ∀ seqId, ∀ b ∈ p.table seqId, b < p.numBlocks
  refCount_eq : ∀ b, (p.blocks b).refCount = p.occurrences b + held.count b
  free_nodup : p.freeBlocks.Nodup
  free_lt : ∀ b ∈ p.freeBlocks, b < p.numBlocks
  free_refCount : ∀ b ∈ p.freeBlocks, (p.blocks b).refCount = 0
  index_lt : ∀ h b, p.hashToBlockId h = some b → b < p.numBlocks
  lru_nodup : p.readyLru.Nodup

/-- The running hash of the loops over blocks, after these blocks. -/
def prefixHash [Xxh3] (views : List (List ℤ)) : ℤ := views.foldl (fun h view => computeBlockHash view h) (-1)

@[simp] theorem prefixHash_nil [Xxh3] : prefixHash [] = -1 := rfl

@[simp] theorem prefixHash_append [Xxh3] (views : List (List ℤ)) (view : List ℤ) :
    prefixHash (views ++ [view]) = computeBlockHash view (prefixHash views) := by
  unfold prefixHash
  rw [List.foldl_append]
  rfl

/-- `compute_block_hash` has no collisions on the running hashes and never gives the mark `-1`.  It cannot be injective
on all prefix hashes: it seeds with `0` for `-1` and for `0`. -/
structure HashInjective [Xxh3] : Prop where
  ne_neg_one : ∀ tokens h, computeBlockHash tokens h ≠ -1
  inj : ∀ {tokens tokens' views views'},
    computeBlockHash tokens (prefixHash views) = computeBlockHash tokens' (prefixHash views') →
      tokens = tokens' ∧ prefixHash views = prefixHash views'

/-- Different blocks have different hashes. -/
theorem HashInjective.prefixHash_inj [Xxh3] (hash : HashInjective) (views views' : List (List ℤ))
    (h : prefixHash views = prefixHash views') : views = views' := by
  induction views using List.reverseRecOn generalizing views' with
  | nil =>
    rcases List.eq_nil_or_concat views' with rfl | ⟨views', view, rfl⟩
    · rfl
    · rw [List.concat_eq_append, prefixHash_append] at h
      exact absurd h.symm (hash.ne_neg_one _ _)
  | append_singleton views view ih =>
    rcases List.eq_nil_or_concat views' with rfl | ⟨views', view', rfl⟩
    · rw [prefixHash_append] at h
      exact absurd h (hash.ne_neg_one _ _)
    · rw [List.concat_eq_append] at h ⊢
      rw [prefixHash_append, prefixHash_append] at h
      obtain ⟨rfl, hviews⟩ := hash.inj h
      rw [ih views' hviews]

/-- `h` is the hash of a block with these tokens after some prefix. -/
def HashOf [Xxh3] (h : ℤ) (tokens : List ℤ) : Prop := ∃ views, h = computeBlockHash tokens (prefixHash views)

structure Hbm [Xxh3] (p : BlockPool) (held : List ℕ) : Prop extends Sound p held where
  free_of_refCount : ∀ b < p.numBlocks, (p.blocks b).refCount = 0 → b ∈ p.freeBlocks
  ready_hashOf : ∀ b, (p.blocks b).state = .ready → HashOf (p.blocks b).hash (p.blocks b).tokenIds

/-- What taking a block from the free list does, for a new or a promoted block. -/
structure Fresh (p : BlockPool) (b : ℕ) (p' : BlockPool) : Prop where
  freeBlocks : p.freeBlocks = b :: p'.freeBlocks
  numBlocks : p'.numBlocks = p.numBlocks
  blockSize : p'.blockSize = p.blockSize
  refCount : (p'.blocks b).refCount = 1
  blocks : ∀ c, c ≠ b → p'.blocks c = p.blocks c
  seqBlocks : p'.seqBlocks = p.seqBlocks
  index : ∀ h c, p'.hashToBlockId h = some c → p.hashToBlockId h = some c ∨ c = b
  lru : p.readyLru.Nodup → p'.readyLru.Nodup

theorem touchReadyHash_lru {p : BlockPool} (hp : p.readyLru.Nodup) (h : ℤ) : (p.touchReadyHash h).readyLru.Nodup := by
  unfold touchReadyHash
  split
  case isTrue => exact hp
  case isFalse =>
    refine List.nodup_append.2 ⟨hp.filter _, List.nodup_singleton h, ?_⟩
    intro a ha b hb hab
    rw [List.mem_singleton] at hb
    simpa [hab, hb] using (List.mem_filter.1 ha).2

@[simp] theorem touchReadyHash_blocks (p : BlockPool) (h : ℤ) : (p.touchReadyHash h).blocks = p.blocks := by
  unfold touchReadyHash
  split <;> rfl

@[simp] theorem touchReadyHash_numBlocks (p : BlockPool) (h : ℤ) : (p.touchReadyHash h).numBlocks = p.numBlocks := by
  unfold touchReadyHash
  split <;> rfl

@[simp] theorem touchReadyHash_blockSize (p : BlockPool) (h : ℤ) : (p.touchReadyHash h).blockSize = p.blockSize := by
  unfold touchReadyHash
  split <;> rfl

@[simp] theorem touchReadyHash_freeBlocks (p : BlockPool) (h : ℤ) :
    (p.touchReadyHash h).freeBlocks = p.freeBlocks := by
  unfold touchReadyHash
  split <;> rfl

@[simp] theorem touchReadyHash_seqBlocks (p : BlockPool) (h : ℤ) : (p.touchReadyHash h).seqBlocks = p.seqBlocks := by
  unfold touchReadyHash
  split <;> rfl

@[simp] theorem touchReadyHash_hashToBlockId (p : BlockPool) (h : ℤ) :
    (p.touchReadyHash h).hashToBlockId = p.hashToBlockId := by
  unfold touchReadyHash
  split <;> rfl

theorem allocateFreshWithEviction_fresh {p p' : BlockPool} {b : ℕ} {evicted : Option EvictedBlock}
    (h : p.allocateFreshWithEviction = (.ok (b, evicted), p')) :
    Fresh p b p' ∧ (p'.blocks b).state = .pending ∧ evicted = p.evictedReadyMeta b := by
  unfold allocateFreshWithEviction at h
  split at h
  case h_1 => cases h
  case h_2 b' free hfree =>
    simp only [Prod.mk.injEq, Except.ok.injEq] at h
    obtain ⟨⟨rfl, rfl⟩, rfl⟩ := h
    -- the index and the queue lose at most the entry of the evicted block
    refine ⟨?_, ?_, rfl⟩
    · cases hev : p.evictedReadyMeta b' with
      | none =>
        exact ⟨hfree, rfl, rfl, by simp [setBlock, BlockMeta.resetPending],
          fun c hc => by simp [setBlock, Function.update_of_ne hc], rfl, fun h c hc => .inl hc, id⟩
      | some e =>
        refine ⟨hfree, rfl, rfl, by simp [setBlock, BlockMeta.resetPending],
          fun c hc => by simp [setBlock, Function.update_of_ne hc], rfl, fun h c hc => .inl ?_, fun h => h.filter _⟩
        by_cases hh : h = e.hash
        · subst hh
          simp [setBlock] at hc
        · simpa [setBlock, Function.update_of_ne hh] using hc
    · cases p.evictedReadyMeta b' <;> simp [setBlock, BlockMeta.resetPending]

theorem allocatePromotedReady_fresh {p p' : BlockPool} {hash : ℤ} {tokens : List ℤ} {b : ℕ}
    {evicted : Option EvictedBlock} (h : p.allocatePromotedReady hash tokens = (.ok (b, evicted), p')) :
    Fresh p b p' ∧ p'.blocks b = ⟨1, hash, tokens, .ready⟩ ∧ evicted = p.evictedReadyMeta b := by
  unfold allocatePromotedReady at h
  split at h
  case h_1 => cases h
  case h_2 b' evicted' p₁ hfresh =>
    simp only [Prod.mk.injEq, Except.ok.injEq] at h
    obtain ⟨⟨rfl, rfl⟩, rfl⟩ := h
    obtain ⟨hfresh, -, hev⟩ := allocateFreshWithEviction_fresh hfresh
    refine ⟨⟨?_, ?_, ?_, ?_, ?_, ?_, ?_, ?_⟩, by simp [setBlock], hev⟩
    · simpa [setBlock] using hfresh.freeBlocks
    · simpa [setBlock] using hfresh.numBlocks
    · simpa [setBlock] using hfresh.blockSize
    · simp [setBlock]
    · intro c hc
      simpa [setBlock, Function.update_of_ne hc] using hfresh.blocks c hc
    · simpa [setBlock] using hfresh.seqBlocks
    · intro h c hc
      by_cases hh : h = hash
      · subst hh
        simp only [setBlock, touchReadyHash_hashToBlockId, Function.update_self, Option.some.injEq] at hc
        exact .inr hc.symm
      · simp only [setBlock, touchReadyHash_hashToBlockId, Function.update_of_ne hh] at hc
        exact hfresh.index h c hc
    · intro hlru
      refine touchReadyHash_lru ?_ hash
      exact hfresh.lru hlru

theorem allocateFreshWithEviction_error {p p' : BlockPool} {e : PyErr}
    (h : p.allocateFreshWithEviction = (.error e, p')) : p = p' := by
  unfold allocateFreshWithEviction at h
  split at h
  case h_1 => exact (Prod.mk.inj h).2
  case h_2 => cases h

theorem retainBlock_ok {p p' : BlockPool} {b : ℕ} (h : p.retainBlock b = (.ok (), p')) :
    b < p.numBlocks ∧ p' = { p.setBlock b { p.blocks b with refCount := (p.blocks b).refCount + 1 } with
      freeBlocks := p.freeBlocks.filter (fun id => decide (id ≠ b)) } := by
  unfold retainBlock at h
  split at h
  case isFalse => cases h
  case isTrue hb => exact ⟨hb, (Prod.mk.inj h).2.symm⟩

theorem releaseOne_numBlocks (p : BlockPool) (b : ℕ) : (p.releaseOne b).numBlocks = p.numBlocks := by
  unfold releaseOne
  split
  case isFalse => rfl
  case isTrue =>
    dsimp only
    split <;> rfl

theorem releaseOne_freeBlocks_subset (p : BlockPool) (b : ℕ) : p.freeBlocks ⊆ (p.releaseOne b).freeBlocks := by
  unfold releaseOne
  split
  case isFalse => exact List.Subset.refl _
  case isTrue =>
    dsimp only
    split
    case isTrue => exact List.subset_cons_self b p.freeBlocks
    case isFalse => exact List.Subset.refl _

theorem releaseOne_blocks_of_ne (p : BlockPool) {b c : ℕ} (hcb : c ≠ b) :
    (p.releaseOne b).blocks c = p.blocks c := by
  unfold releaseOne
  split
  case isFalse => rfl
  case isTrue =>
    dsimp only
    split <;> simp [setBlock, Function.update_of_ne hcb]

/-- A release changes nothing of a block but its references. -/
theorem releaseOne_meta (p : BlockPool) (b c : ℕ) : ((p.releaseOne b).blocks c).state = (p.blocks c).state ∧
    ((p.releaseOne b).blocks c).hash = (p.blocks c).hash ∧
    ((p.releaseOne b).blocks c).tokenIds = (p.blocks c).tokenIds := by
  by_cases hcb : c = b
  · subst hcb
    unfold releaseOne
    split
    case isFalse => exact ⟨rfl, rfl, rfl⟩
    case isTrue =>
      dsimp only
      split <;> simp [setBlock]
  · rw [releaseOne_blocks_of_ne p hcb]
    exact ⟨rfl, rfl, rfl⟩

namespace Sound

variable {p : BlockPool} {held : List ℕ}

/-- A free block is in no table and in no hand. -/
theorem occurrences_free (hp : p.Sound held) {b : ℕ} (hb : b ∈ p.freeBlocks) :
    p.occurrences b = 0 ∧ held.count b = 0 := by
  have hzero := hp.free_refCount b hb
  have hcount := hp.refCount_eq b
  omega

theorem notMem_table (hp : p.Sound held) {b : ℕ} (hb : b ∈ p.freeBlocks) (seqId : ℕ) : b ∉ p.table seqId := by
  intro hmem
  have hle := count_le_familyCount hp.finite_tables seqId b
  have hpos : 0 < (p.table seqId).count b := List.count_pos_iff.2 hmem
  have hzero := (hp.occurrences_free hb).1
  unfold occurrences at hzero
  unfold table at hpos
  omega

/-- The tables and the references stay; the free list may change among the blocks without references. -/
theorem congr_free {p' : BlockPool} (hp : p.Sound held) (hn : p'.numBlocks = p.numBlocks)
    (hrc : ∀ b, (p'.blocks b).refCount = (p.blocks b).refCount) (htab : p'.seqBlocks = p.seqBlocks)
    (hnodup : p'.freeBlocks.Nodup) (hfree : ∀ b ∈ p'.freeBlocks, b < p.numBlocks ∧ (p.blocks b).refCount = 0)
    (hindex : ∀ h b, p'.hashToBlockId h = some b → b < p.numBlocks) (hlru : p'.readyLru.Nodup) : p'.Sound held where
  finite_tables := htab ▸ hp.finite_tables
  table_nodup seqId := by
    have := hp.table_nodup seqId
    unfold table at *
    rwa [htab]
  table_lt seqId b hb := by
    rw [hn]
    refine hp.table_lt seqId b ?_
    unfold table at *
    rwa [← htab]
  refCount_eq b := by
    rw [hrc, hp.refCount_eq]
    unfold occurrences
    rw [htab]
  free_nodup := hnodup
  free_lt b hb := hn ▸ (hfree b hb).1
  free_refCount b hb := (hrc b).trans (hfree b hb).2
  index_lt h b hb := hn ▸ hindex h b hb
  lru_nodup := hlru

theorem congr {p' : BlockPool} (hp : p.Sound held) (hn : p'.numBlocks = p.numBlocks)
    (hrc : ∀ b, (p'.blocks b).refCount = (p.blocks b).refCount) (hfree : p'.freeBlocks = p.freeBlocks)
    (htab : p'.seqBlocks = p.seqBlocks) (hindex : ∀ h b, p'.hashToBlockId h = some b → b < p.numBlocks)
    (hlru : p'.readyLru.Nodup) : p'.Sound held :=
  hp.congr_free hn hrc htab (hfree ▸ hp.free_nodup)
    (fun b hb => ⟨hp.free_lt b (hfree ▸ hb), hp.free_refCount b (hfree ▸ hb)⟩) hindex hlru

/-- A table is replaced; what it gains or loses is held outside before or after. -/
theorem setTable {held' : List ℕ} (hp : p.Sound held) (seqId : ℕ) (o : Option (List ℕ))
    (hnodup : (o.getD []).Nodup) (hlt : ∀ b ∈ o.getD [], b < p.numBlocks)
    (hcount : ∀ b, (o.getD []).count b + held'.count b = (p.table seqId).count b + held.count b) :
    { p with seqBlocks := Function.update p.seqBlocks seqId o }.Sound held' := by
  have htable : ∀ id, ({ p with seqBlocks := Function.update p.seqBlocks seqId o } : BlockPool).table id =
      if id = seqId then o.getD [] else p.table id := by
    intro id
    unfold table
    by_cases hid : id = seqId
    · subst hid
      simp
    · simp [hid]
  refine ⟨finite_update hp.finite_tables seqId o, ?_, ?_, ?_, hp.free_nodup, hp.free_lt,
    hp.free_refCount, hp.index_lt,
    hp.lru_nodup⟩
  · intro id
    rw [htable]
    split
    case isTrue => exact hnodup
    case isFalse => exact hp.table_nodup id
  · intro id b hb
    rw [htable] at hb
    split at hb
    case isTrue => exact hlt b hb
    case isFalse => exact hp.table_lt id b hb
  · intro b
    have hupdate := familyCount_update hp.finite_tables seqId o b
    have hrc := hp.refCount_eq b
    have hb := hcount b
    unfold table at hb
    unfold occurrences at hrc ⊢
    show (p.blocks b).refCount = familyCount (Function.update p.seqBlocks seqId o) b + held'.count b
    omega

/-- The order in which blocks are held does not matter. -/
theorem congr_held {held' : List ℕ} (hp : p.Sound held) (h : ∀ b, held'.count b = held.count b) : p.Sound held' :=
  { hp with refCount_eq := fun b => by rw [h, hp.refCount_eq] }

theorem fresh {p' : BlockPool} {b : ℕ} (hp : p.Sound held) (h : Fresh p b p') : p'.Sound (b :: held) := by
  have hbfree : b ∈ p.freeBlocks := h.freeBlocks ▸ List.mem_cons_self
  have hnodup : b ∉ p'.freeBlocks ∧ p'.freeBlocks.Nodup := List.nodup_cons.1 (h.freeBlocks ▸ hp.free_nodup)
  have hfree : ∀ c ∈ p'.freeBlocks, c ∈ p.freeBlocks := fun c hc => h.freeBlocks ▸ List.mem_cons_of_mem b hc
  -- no table changes: the block was free, and is held outside now
  refine ⟨h.seqBlocks ▸ hp.finite_tables, ?_, ?_, ?_, hnodup.2, ?_, ?_, ?_, h.lru hp.lru_nodup⟩
  · intro id
    have := hp.table_nodup id
    unfold table at *
    rwa [h.seqBlocks]
  · intro id c hc
    rw [h.numBlocks]
    refine hp.table_lt id c ?_
    unfold table at *
    rwa [← h.seqBlocks]
  · intro c
    unfold occurrences
    rw [h.seqBlocks, count_cons_eq]
    by_cases hc : c = b
    · subst hc
      have hzero := hp.occurrences_free hbfree
      unfold occurrences at hzero
      rw [h.refCount, hzero.1, hzero.2]
      simp
    · rw [h.blocks c hc, hp.refCount_eq c, List.count_singleton, if_neg (by simpa using Ne.symm hc)]
      rfl
  · intro c hc
    rw [h.numBlocks]
    exact hp.free_lt c (hfree c hc)
  · intro c hc
    have hne : c ≠ b := fun heq => hnodup.1 (heq ▸ hc)
    rw [h.blocks c hne]
    exact hp.free_refCount c (hfree c hc)
  · intro k c hc
    rw [h.numBlocks]
    rcases h.index k c hc with hold | rfl
    · exact hp.index_lt k c hold
    · exact hp.free_lt c hbfree

theorem retainBlock {p' : BlockPool} {b : ℕ} (hp : p.Sound held) (h : p.retainBlock b = (.ok (), p')) :
    p'.Sound (b :: held) := by
  obtain ⟨-, rfl⟩ := retainBlock_ok h
  refine ⟨hp.finite_tables, hp.table_nodup, hp.table_lt, ?_, hp.free_nodup.filter _,
    fun c hc => hp.free_lt c (List.mem_filter.1 hc).1, ?_, hp.index_lt, hp.lru_nodup⟩
  · intro c
    have hrc := hp.refCount_eq c
    rw [count_cons_eq, List.count_singleton, ← Nat.add_assoc]
    by_cases hc : c = b
    · subst hc
      simp only [setBlock, Function.update_self, BEq.rfl, if_true]
      exact congrArg (· + 1) hrc
    · simp only [setBlock, Function.update_of_ne hc, beq_iff_eq, Ne.symm hc, if_false]
      exact hrc
  · intro c hc
    have hne : c ≠ b := by simpa using (List.mem_filter.1 hc).2
    simp only [setBlock, Function.update_of_ne hne]
    exact hp.free_refCount c (List.mem_filter.1 hc).1

/-- Dropping a held reference; the block goes on the free list with its last one. -/
theorem releaseOne {b : ℕ} (hp : p.Sound (b :: held)) (hb : b < p.numBlocks) : (p.releaseOne b).Sound held := by
  have hrc :
    ∀ c, ((Function.update p.blocks b { p.blocks b with refCount := (p.blocks b).refCount - 1 }) c).refCount =
      p.occurrences c + held.count c := by
    intro c
    have hcount := hp.refCount_eq c
    rw [count_cons_eq, List.count_singleton] at hcount
    by_cases hc : c = b
    · subst hc
      simp only [Function.update_self]
      simp only [BEq.rfl, if_true] at hcount
      omega
    · rw [Function.update_of_ne hc, hcount, if_neg (by simpa using Ne.symm hc)]
      rfl
  have hset : (p.setBlock b { p.blocks b with refCount := (p.blocks b).refCount - 1 }).Sound held := by
    refine ⟨hp.finite_tables, hp.table_nodup, hp.table_lt, hrc, hp.free_nodup, hp.free_lt, ?_,
      hp.index_lt, hp.lru_nodup⟩
    intro c hc
    have hle := hp.free_refCount c hc
    by_cases hcb : c = b
    · subst hcb
      simp only [setBlock, Function.update_self]
      omega
    · simpa only [setBlock, Function.update_of_ne hcb] using hle
  unfold BlockPool.releaseOne
  rw [if_pos hb]
  dsimp only
  split
  case isFalse => exact hset
  -- the last reference: the block was on no free list, since free blocks have none
  case isTrue hlast =>
    refine { hset with
      free_nodup := List.nodup_cons.2 ⟨hlast.2, hset.free_nodup⟩
      free_lt := ?_
      free_refCount := ?_ }
    · intro c hc
      rcases List.mem_cons.1 hc with rfl | hc
      · exact hb
      · exact hset.free_lt c hc
    · intro c hc
      rcases List.mem_cons.1 hc with rfl | hc
      · simpa only [setBlock, Function.update_self] using hlast.1
      · exact hset.free_refCount c hc

end Sound

/-! ## What both kinds of pools share -/

/-- An invariant that the steps common to HBM and host pools keep. -/
structure Kept (I : BlockPool → List ℕ → Prop) : Prop where
  sound : ∀ {p held}, I p held → p.Sound held
  congr_held : ∀ {p held held'}, I p held → (∀ b, held'.count b = held.count b) → I p held'
  setTable : ∀ {p held held'}, I p held → ∀ (seqId : ℕ) (o : Option (List ℕ)), (o.getD []).Nodup →
    (∀ b ∈ o.getD [], b < p.numBlocks) →
    (∀ b, (o.getD []).count b + held'.count b = (p.table seqId).count b + held.count b) →
    I { p with seqBlocks := Function.update p.seqBlocks seqId o } held'
  allocateFresh : ∀ {p p' held b evicted}, I p held → p.allocateFreshWithEviction = (.ok (b, evicted), p') →
    I p' (b :: held)
  releaseOne : ∀ {p held b}, I p (b :: held) → b < p.numBlocks → I (p.releaseOne b) held

namespace Kept

variable {I : BlockPool → List ℕ → Prop} {p p' : BlockPool} {held : List ℕ}

theorem foldl_releaseOne (hI : Kept I) (blocks : List ℕ) {p : BlockPool} (hp : I p (blocks ++ held))
    (hlt : ∀ b ∈ blocks, b < p.numBlocks) : I (blocks.foldl BlockPool.releaseOne p) held := by
  induction blocks generalizing p with
  | nil => exact hp
  | cons b blocks ih =>
    refine ih (hI.releaseOne hp (hlt b List.mem_cons_self)) fun c hc => ?_
    rw [releaseOne_numBlocks]
    exact hlt c (List.mem_cons_of_mem b hc)

/-- The table of a removed sequence is released block by block. -/
theorem removeSeq (hI : Kept I) (hp : I p held) (seqId : ℕ) : I (p.removeSeq seqId) held := by
  unfold BlockPool.removeSeq
  split
  case h_1 => exact hp
  case h_2 blocks hblocks =>
    have htable : p.table seqId = blocks := by simp [table, hblocks]
    refine hI.foldl_releaseOne blocks (hI.setTable hp seqId none List.nodup_nil (by simp) ?_) ?_
    · intro b
      simp [htable, List.count_append]
    · intro b hb
      exact (hI.sound hp).table_lt seqId b (htable ▸ hb)

/-- Growing a table keeps the pool in order, also when the blocks run out half way. -/
theorem growLoop (hI : Kept I) (hp : I p held) (seqId n : ℕ) : I (BlockPool.growLoop seqId n p).2 held := by
  induction n generalizing p with
  | zero => exact hp
  | succ n ih =>
    unfold BlockPool.growLoop
    split
    case h_1 e p' h => exact allocateFreshWithEviction_error h ▸ hp
    -- the block goes to the end of the table at once
    case h_2 b evicted p' h =>
      have hfresh := (allocateFreshWithEviction_fresh h).1
      have hbfree : b ∈ p.freeBlocks := hfresh.freeBlocks ▸ List.mem_cons_self
      have htable : p'.table seqId = p.table seqId := by
        unfold table
        rw [hfresh.seqBlocks]
      refine ih (hI.setTable (hI.allocateFresh hp h) seqId _ ?_ ?_ ?_)
      · show (p'.table seqId ++ [b]).Nodup
        rw [htable]
        refine List.nodup_append.2 ⟨(hI.sound hp).table_nodup seqId, List.nodup_singleton b, ?_⟩
        intro c hc d hd hcd
        rw [List.mem_singleton] at hd
        exact (hI.sound hp).notMem_table hbfree seqId (hd ▸ hcd ▸ hc)
      · show ∀ c ∈ p'.table seqId ++ [b], c < p'.numBlocks
        rw [htable, hfresh.numBlocks]
        intro c hc
        rcases List.mem_append.1 hc with hc | hc
        · exact (hI.sound hp).table_lt seqId c hc
        · rw [List.mem_singleton] at hc
          exact (hI.sound hp).free_lt c (hc ▸ hbfree)
      · intro c
        show (p'.table seqId ++ [b]).count c + held.count c = (p'.table seqId).count c + (b :: held).count c
        rw [List.count_append, count_cons_eq b c held]
        omega

theorem growExisting (hI : Kept I) (hp : I p held) (seqId needed : ℕ) : I (p.growExisting seqId needed).2 held := by
  have h := hI.growLoop hp seqId (needed - ((p.seqBlocks seqId).getD []).length)
  unfold BlockPool.growExisting
  split
  case h_1 e p' hgrow =>
    rw [hgrow] at h
    exact h
  case h_2 p' hgrow =>
    rw [hgrow] at h
    exact h

/-- Fresh blocks are taken from the free list, each once. -/
theorem takeFresh {k : ℕ} {out : List ℕ} (hI : Kept I) (hp : I p held)
    (h : takePlan (List.replicate k none) p = (.ok out, p')) :
    I p' (out ++ held) ∧ p'.numBlocks = p.numBlocks ∧ p'.seqBlocks = p.seqBlocks ∧ out.Nodup ∧
      out ⊆ p.freeBlocks := by
  induction k generalizing p held out with
  | zero =>
    obtain ⟨hout, rfl⟩ := Prod.mk.inj h
    cases hout
    exact ⟨hp, rfl, rfl, List.nodup_nil, List.nil_subset _⟩
  | succ k ih =>
    rw [List.replicate_succ] at h
    unfold takePlan at h
    split at h
    case h_1 => cases h
    case h_2 b evicted p₁ hfresh =>
      split at h
      case h_1 => cases h
      case h_2 out₁ p₂ hrest =>
        obtain ⟨hout, rfl⟩ := Prod.mk.inj h
        cases hout
        have hf := (allocateFreshWithEviction_fresh hfresh).1
        obtain ⟨hinv, hn, htab, hnodup, hsub⟩ := ih (hI.allocateFresh hp hfresh) hrest
        have hb : b ∉ p₁.freeBlocks := (List.nodup_cons.1 (hf.freeBlocks ▸ (hI.sound hp).free_nodup)).1
        refine ⟨hI.congr_held hinv fun c => List.perm_middle.symm.count_eq c, hn.trans hf.numBlocks,
          htab.trans hf.seqBlocks, List.nodup_cons.2 ⟨fun hmem => hb (hsub hmem), hnodup⟩, ?_⟩
        rw [hf.freeBlocks]
        exact List.cons_subset_cons b hsub

end Kept

/-! ## HBM pools -/

namespace Hbm

variable [Xxh3] {p p' : BlockPool} {held : List ℕ}

theorem congr_held {held' : List ℕ} (hp : p.Hbm held) (h : ∀ b, held'.count b = held.count b) : p.Hbm held' :=
  { hp with toSound := hp.toSound.congr_held h }

theorem setTable {held' : List ℕ} (hp : p.Hbm held) (seqId : ℕ) (o : Option (List ℕ)) (hnodup : (o.getD []).Nodup)
    (hlt : ∀ b ∈ o.getD [], b < p.numBlocks)
    (hcount : ∀ b, (o.getD []).count b + held'.count b = (p.table seqId).count b + held.count b) :
    { p with seqBlocks := Function.update p.seqBlocks seqId o }.Hbm held' :=
  ⟨hp.toSound.setTable seqId o hnodup hlt hcount, hp.free_of_refCount, hp.ready_hashOf⟩

theorem touchReadyHash (hp : p.Hbm held) (h : ℤ) : (p.touchReadyHash h).Hbm held := by
  refine ⟨hp.toSound.congr (by simp) (by simp) (by simp) (by simp) ?_ (touchReadyHash_lru hp.lru_nodup h), ?_, ?_⟩
  · intro k b hb
    rw [touchReadyHash_hashToBlockId] at hb
    exact hp.index_lt k b hb
  · intro b hb hrc
    simp only [touchReadyHash_numBlocks, touchReadyHash_blocks, touchReadyHash_freeBlocks] at hb hrc ⊢
    exact hp.free_of_refCount b hb hrc
  · intro b hb
    rw [touchReadyHash_blocks] at hb ⊢
    exact hp.ready_hashOf b hb

theorem fresh {b : ℕ} (hp : p.Hbm held) (h : Fresh p b p')
    (hready : (p'.blocks b).state = .ready → HashOf (p'.blocks b).hash (p'.blocks b).tokenIds) :
    p'.Hbm (b :: held) := by
  refine ⟨hp.toSound.fresh h, ?_, ?_⟩
  · intro c hc hrc
    by_cases hcb : c = b
    · subst hcb
      rw [h.refCount] at hrc
      cases hrc
    · rw [h.blocks c hcb] at hrc
      have hmem := hp.free_of_refCount c (h.numBlocks ▸ hc) hrc
      rw [h.freeBlocks] at hmem
      exact List.mem_of_ne_of_mem hcb hmem
  · intro c hc
    by_cases hcb : c = b
    · subst hcb
      exact hready hc
    · rw [h.blocks c hcb] at hc ⊢
      exact hp.ready_hashOf c hc

theorem allocateFresh {b : ℕ} {evicted : Option EvictedBlock} (hp : p.Hbm held)
    (h : p.allocateFreshWithEviction = (.ok (b, evicted), p')) : p'.Hbm (b :: held) := by
  obtain ⟨hfresh, hstate, -⟩ := allocateFreshWithEviction_fresh h
  refine hp.fresh hfresh fun hready => ?_
  rw [hstate] at hready
  cases hready

theorem allocatePromoted {b : ℕ} {evicted : Option EvictedBlock} {hash : ℤ} {tokens : List ℤ} (hp : p.Hbm held)
    (hhash : HashOf hash tokens) (h : p.allocatePromotedReady hash tokens = (.ok (b, evicted), p')) :
    p'.Hbm (b :: held) := by
  obtain ⟨hfresh, hmeta, -⟩ := allocatePromotedReady_fresh h
  refine hp.fresh hfresh fun _ => ?_
  rw [hmeta]
  exact hhash

theorem retainBlock {b : ℕ} (hp : p.Hbm held) (h : p.retainBlock b = (.ok (), p')) : p'.Hbm (b :: held) := by
  refine ⟨hp.toSound.retainBlock h, ?_, ?_⟩
  · obtain ⟨-, rfl⟩ := retainBlock_ok h
    intro c hc hrc
    by_cases hcb : c = b
    · subst hcb
      simp [setBlock] at hrc
    · simp only [setBlock, Function.update_of_ne hcb] at hrc
      exact List.mem_filter.2 ⟨hp.free_of_refCount c hc hrc, by simpa using hcb⟩
  · obtain ⟨-, rfl⟩ := retainBlock_ok h
    intro c hc
    by_cases hcb : c = b
    · subst hcb
      simp only [setBlock, Function.update_self] at hc ⊢
      exact hp.ready_hashOf c hc
    · simp only [setBlock, Function.update_of_ne hcb] at hc ⊢
      exact hp.ready_hashOf c hc

theorem releaseOne {b : ℕ} (hp : p.Hbm (b :: held)) (hb : b < p.numBlocks) : (p.releaseOne b).Hbm held := by
  refine ⟨hp.toSound.releaseOne hb, ?_, ?_⟩
  · intro c hc hrc
    by_cases hfree : c ∈ p.freeBlocks
    · exact releaseOne_freeBlocks_subset p b hfree
    · by_cases hcb : c = b
      · subst hcb
        unfold BlockPool.releaseOne at hrc ⊢
        rw [if_pos hb] at hrc ⊢
        dsimp only at hrc ⊢
        split at hrc
        -- the last reference: the block was on no free list, since free blocks have none
        case isTrue hlast =>
          rw [if_pos hlast]
          exact List.mem_cons_self
        case isFalse hlast =>
          refine absurd ⟨?_, hfree⟩ hlast
          simpa only [setBlock, Function.update_self] using hrc
      · rw [releaseOne_blocks_of_ne p hcb] at hrc
        rw [releaseOne_numBlocks] at hc
        exact absurd (hp.free_of_refCount c hc hrc) hfree
  · intro c hc
    obtain ⟨hstate, hhash, htokens⟩ := releaseOne_meta p b c
    rw [hstate] at hc
    rw [hhash, htokens]
    exact hp.ready_hashOf c hc

theorem kept : Kept Hbm where
  sound := Hbm.toSound
  congr_held := Hbm.congr_held
  setTable := Hbm.setTable
  allocateFresh := Hbm.allocateFresh
  releaseOne := Hbm.releaseOne

/-! ### `ensure_blocks` for a new sequence -/

/-- The cached blocks of a plan are retained, then the rest of the plan is done. -/
theorem takeHits {hits : List ℕ} {rest : List (Option ℕ)} {out : List ℕ} (hp : p.Hbm held)
    (h : takePlan (hits.map some ++ rest) p = (.ok out, p')) :
    ∃ p₁ out₁, out = hits ++ out₁ ∧ p₁.Hbm (hits ++ held) ∧ p₁.numBlocks = p.numBlocks ∧
      p₁.seqBlocks = p.seqBlocks ∧
      takePlan rest p₁ = (.ok out₁, p') := by
  induction hits generalizing p held out with
  | nil => exact ⟨p, out, rfl, hp, rfl, rfl, h⟩
  | cons b hits ih =>
    rw [List.map_cons, List.cons_append] at h
    unfold takePlan at h
    split at h
    case h_1 => cases h
    case h_2 p₁ hretain =>
      split at h
      case h_1 => cases h
      case h_2 out₁ p₂ hrest =>
        obtain ⟨hout, rfl⟩ := Prod.mk.inj h
        cases hout
        obtain ⟨p₃, out₃, rfl, hinv, hn, htab, hdone⟩ := ih (hp.retainBlock hretain) hrest
        obtain ⟨-, rfl⟩ := retainBlock_ok hretain
        exact ⟨p₃, out₃, rfl, hinv.congr_held fun c => List.perm_middle.symm.count_eq c, hn, htab, hdone⟩

end Hbm

/-- A block found in the index is in range, `Ready` and carries the hash it was looked up with. -/
theorem lookupReadyBlock_some {p : BlockPool} {hash : ℤ} {tokens : List ℤ} {b : ℕ}
    (h : p.lookupReadyBlock hash tokens = some b) : b < p.numBlocks ∧ p.hashToBlockId hash = some b ∧
      (p.blocks b).state = .ready ∧ (p.blocks b).hash = hash ∧ (p.blocks b).tokenIds = tokens := by
  unfold lookupReadyBlock at h
  split at h
  case h_1 => cases h
  case h_2 b' hindex =>
    split at h
    case h_1 => cases h
    case h_2 m hget =>
      split at h
      case isFalse => cases h
      case isTrue hmatch =>
        cases h
        unfold getBlock at hget
        split at hget
        case isFalse => cases hget
        case isTrue hlt =>
          cases hget
          unfold BlockMeta.readyMatches at hmatch
          simp only [Bool.and_eq_true, decide_eq_true_eq] at hmatch
          exact ⟨hlt, hindex, hmatch.1.1, hmatch.1.2, hmatch.2⟩

section plan

variable [Xxh3]

/-- After a miss nothing is looked up any more. -/
theorem planLoop_miss (p : BlockPool) (tokenIds : List ℤ) (n blockIdx : ℕ) (h : ℤ) :
    p.planLoop tokenIds n blockIdx h true = List.replicate n none := by
  induction n generalizing blockIdx with
  | zero => rfl
  | succ n ih =>
    unfold planLoop
    rw [if_neg (by simp), ih, List.replicate_succ]

/-- A plan: cached blocks first, distinct because their hashes are, then fresh ones. -/
theorem planLoop_eq (hash : HashInjective) (p : BlockPool) (tokenIds : List ℤ) (n blockIdx : ℕ)
    (views : List (List ℤ)) :
    ∃ (hits : List ℕ) (k : ℕ),
      p.planLoop tokenIds n blockIdx (prefixHash views) false = hits.map some ++ List.replicate k none ∧
        hits.Nodup ∧
      ∀ b ∈ hits, b < p.numBlocks ∧ ∃ longer, views.length < longer.length ∧
        (p.blocks b).hash = prefixHash longer := by
  induction n generalizing blockIdx views with
  | zero => exact ⟨[], 0, rfl, List.nodup_nil, by simp⟩
  | succ n ih =>
    rw [planLoop]
    dsimp only
    split
    case isFalse => exact ⟨[], n + 1, by simp [planLoop_miss, List.replicate_succ], List.nodup_nil, by simp⟩
    case isTrue =>
      split
      case h_2 => exact ⟨[], n + 1, by simp [planLoop_miss, List.replicate_succ], List.nodup_nil, by simp⟩
      case h_1 b hlookup =>
        rw [← prefixHash_append] at hlookup ⊢
        obtain ⟨hits, k, heq, hnodup, hhits⟩ :=
          ih (blockIdx + 1) (views ++ [blockView p.blockSize tokenIds blockIdx])
        obtain ⟨hlt, -, -, hbhash, -⟩ := lookupReadyBlock_some hlookup
        -- the hashes further on are those of longer prefixes
        have hb : b ∉ hits := by
          intro hmem
          obtain ⟨-, longer, hlen, hlonger⟩ := hhits b hmem
          rw [← hash.prefixHash_inj _ _ (hbhash.symm.trans hlonger)] at hlen
          omega
        refine ⟨b :: hits, k, by rw [heq]; rfl, List.nodup_cons.2 ⟨hb, hnodup⟩, ?_⟩
        intro c hc
        rcases List.mem_cons.1 hc with rfl | hc
        · exact ⟨hlt, _, by simp, hbhash⟩
        · obtain ⟨hclt, longer, hlen, hlonger⟩ := hhits c hc
          rw [List.length_append] at hlen
          exact ⟨hclt, longer, by omega, hlonger⟩

theorem planNewBlocks_eq (hash : HashInjective) (p : BlockPool) (tokenIds : List ℤ) (needed : ℕ)
    (usePrefixCache : Bool) :
    ∃ (hits : List ℕ) (k : ℕ), p.planNewBlocks tokenIds needed usePrefixCache =
      hits.map some ++ List.replicate k none ∧
      hits.Nodup ∧ ∀ b ∈ hits, b < p.numBlocks := by
  unfold planNewBlocks
  cases !usePrefixCache || !p.prefixCachingEnabled with
  | true => exact ⟨[], needed, planLoop_miss p tokenIds needed 0 (-1), List.nodup_nil, by simp⟩
  | false =>
    obtain ⟨hits, k, heq, hnodup, hhits⟩ := planLoop_eq hash p tokenIds needed 0 []
    exact ⟨hits, k, heq, hnodup, fun b hb => (hhits b hb).1⟩

/-- `ensure_blocks` keeps an HBM pool in order: a new table has no block twice. -/
theorem Hbm.ensureBlocks {p p' : BlockPool} {held out : List ℕ} (hash : HashInjective) (hp : p.Hbm held) (seqId : ℕ)
    (tokenIds : List ℤ) (tokens : ℤ) (usePrefixCache : Bool)
    (h : p.ensureBlocks seqId tokenIds tokens usePrefixCache = (.ok out, p')) : p'.Hbm held := by
  unfold BlockPool.ensureBlocks at h
  dsimp only at h
  split at h
  case isTrue =>
    have hgrow := Hbm.kept.growExisting hp seqId (p.numBlocksForTokens tokens)
    rw [h] at hgrow
    exact hgrow
  case isFalse hnew =>
    have htable : p.table seqId = [] := table_of_not_hasSeq hnew
    split at h
    case isTrue => cases h
    case isFalse =>
      -- the plan is its hits and `k` fresh blocks, which come off the free list and so are none of the hits
      obtain ⟨hits, k, hplan, hhitsNodup, hhitsLt⟩ :=
        planNewBlocks_eq hash p tokenIds (p.numBlocksForTokens tokens) usePrefixCache
      rw [hplan] at h
      split at h
      case h_1 => cases h
      case h_2 out' p₂ htake =>
        obtain ⟨hout, rfl⟩ := Prod.mk.inj h
        cases hout
        obtain ⟨p₁, out₁, rfl, hinv₁, hn₁, htab₁, hrest⟩ := hp.takeHits htake
        obtain ⟨hinv₂, hn₂, htab₂, hnodup₂, hfree₂⟩ := Hbm.kept.takeFresh hinv₁ hrest
        refine hinv₂.setTable seqId (some (hits ++ out₁)) ?_ ?_ ?_
        · -- what is retained is no longer free
          refine List.nodup_append.2 ⟨hhitsNodup, hnodup₂, ?_⟩
          rintro b hb c hc rfl
          have hzero := (hinv₁.occurrences_free (hfree₂ hc)).2
          rw [List.count_append] at hzero
          have hpos := List.count_pos_iff.2 hb
          omega
        · intro b hb
          rw [hn₂]
          rcases List.mem_append.1 hb with hb | hb
          · exact hn₁ ▸ hhitsLt b hb
          · exact hinv₁.free_lt b (hfree₂ hb)
        · intro b
          have htable₂ : p₂.table seqId = [] := by
            unfold table at htable ⊢
            rw [htab₂, htab₁, htable]
          rw [htable₂]
          simp only [Option.getD_some, List.count_append, List.count_nil]
          omega

/-! ### `commit_ready` -/

/-- One block of `commit_ready`: its prefix is recorded, its references stay. -/
theorem Hbm.markReady {p : BlockPool} {held : List ℕ} (hp : p.Hbm held) {b : ℕ} (hb : b < p.numBlocks) {hash : ℤ}
    {tokens : List ℤ} (hhash : HashOf hash tokens) :
    { p.setBlock b { p.blocks b with hash := hash, tokenIds := tokens, state := .ready } with
      hashToBlockId := Function.update p.hashToBlockId hash (some b) }.Hbm held := by
  have hrc : ∀ c, ((Function.update p.blocks b { p.blocks b with hash := hash, tokenIds := tokens, state := .ready })
      c).refCount = (p.blocks c).refCount := by
    intro c
    by_cases hcb : c = b
    · subst hcb
      simp
    · rw [Function.update_of_ne hcb]
  refine ⟨hp.toSound.congr rfl hrc rfl rfl ?_ hp.lru_nodup, ?_, ?_⟩
  · intro h c hc
    by_cases hh : h = hash
    · subst hh
      simp only [Function.update_self, Option.some.injEq] at hc
      exact hc ▸ hb
    · simp only [Function.update_of_ne hh] at hc
      exact hp.index_lt h c hc
  · intro c hc hzero
    exact hp.free_of_refCount c hc ((hrc c).symm.trans hzero)
  · intro c hc
    by_cases hcb : c = b
    · subst hcb
      simpa [setBlock] using hhash
    · simp only [setBlock, Function.update_of_ne hcb] at hc ⊢
      exact hp.ready_hashOf c hc

/-- A block already `Ready` under its hash is only indexed again. -/
theorem Hbm.indexBlock {p : BlockPool} {held : List ℕ} (hp : p.Hbm held) {b : ℕ}
    (hb : b < p.numBlocks) (hash : ℤ) :
    { p with hashToBlockId := Function.update p.hashToBlockId hash (some b) }.Hbm held := by
  refine ⟨hp.toSound.congr rfl (fun _ => rfl) rfl rfl ?_ hp.lru_nodup, hp.free_of_refCount, hp.ready_hashOf⟩
  intro h c hc
  by_cases hh : h = hash
  · subst hh
    simp only [Function.update_self, Option.some.injEq] at hc
    exact hc ▸ hb
  · simp only [Function.update_of_ne hh] at hc
    exact hp.index_lt h c hc

theorem Hbm.commitLoop {p : BlockPool} {held : List ℕ} (hp : p.Hbm held) (tokenIds : List ℤ) (table : List ℕ)
    (blockIdx : ℕ) (views : List (List ℤ)) :
    (BlockPool.commitLoop tokenIds table blockIdx (prefixHash views) p).Hbm held := by
  induction table generalizing p blockIdx views with
  | nil => exact hp
  | cons b table ih =>
    rw [BlockPool.commitLoop]
    dsimp only
    split
    case isTrue => exact hp
    case isFalse =>
      rw [← prefixHash_append]
      have hhash : HashOf (prefixHash (views ++ [blockView p.blockSize tokenIds blockIdx]))
          (blockView p.blockSize tokenIds blockIdx) := ⟨views, prefixHash_append _ _⟩
      split
      case h_1 => exact ih hp (blockIdx + 1) _
      case h_2 m hget =>
        unfold getBlock at hget
        split at hget
        case isFalse => cases hget
        case isTrue hb =>
          cases hget
          split
          case isTrue => exact ih (hp.indexBlock hb _) (blockIdx + 1) _
          case isFalse => exact ih ((hp.markReady hb hhash).touchReadyHash _) (blockIdx + 1) _

theorem Hbm.commitReady {p : BlockPool} {held : List ℕ} (hp : p.Hbm held) (seqId : ℕ) (tokenIds : List ℤ)
    (committedTokens : ℤ) : (p.commitReady seqId tokenIds committedTokens).Hbm held := by
  unfold BlockPool.commitReady
  split
  case h_1 => exact hp
  case h_2 table _ => exact hp.commitLoop tokenIds _ 0 []

theorem Hbm.lookup {p : BlockPool} {held : List ℕ} (hp : p.Hbm held) (hash : ℤ) (tokens : List ℤ) :
    (p.lookupReadyPrefixBlock hash tokens).2.Hbm held := by
  unfold lookupReadyPrefixBlock
  split
  case h_1 => exact hp
  case h_2 => exact hp.touchReadyHash hash

end plan

end BlockPool

end NanoEngine
