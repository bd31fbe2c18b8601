import NanoEngine.Cache.PoolInvariant

/-!
# NanoEngine.Cache.HostPool — host pools keep evicted prefixes without references

A block of a host pool is free, holds the swapped-out blocks of a sequence (with a reference), or stores a prefix
evicted from HBM: then it is `Ready`, without references, off the free list, in the index and in the queue.
-/

namespace NanoEngine

open Counting

namespace BlockPool

structure Host [Xxh3] (p : BlockPool) (held : List ℕ) : Prop extends Sound p held where
  ready_iff : ∀ b < p.numBlocks, (p.blocks b).state = .ready ↔ (p.blocks b).refCount = 0 ∧ b ∉ p.freeBlocks
  ready_index : ∀ b < p.numBlocks, (p.blocks b).state = .ready → p.hashToBlockId (p.blocks b).hash = some b
  ready_hashOf : ∀ b < p.numBlocks, (p.blocks b).state = .ready → HashOf (p.blocks b).hash (p.blocks b).tokenIds
  index_ready : ∀ h b, p.hashToBlockId h = some b → (p.blocks b).state = .ready ∧ (p.blocks b).hash = h
  lru_iff : ∀ h, h ∈ p.readyLru ↔ p.hashToBlockId h ≠ none

namespace Host

variable [Xxh3] {p p' : BlockPool} {held : List ℕ}

theorem congr_held {held' : List ℕ} (hp : p.Host held) (h : ∀ b, held'.count b = held.count b) : p.Host held' :=
  { hp with toSound := hp.toSound.congr_held h }

theorem setTable {held' : List ℕ} (hp : p.Host held) (seqId : ℕ) (o : Option (List ℕ))
    (hnodup : (o.getD []).Nodup) (hlt : ∀ b ∈ o.getD [], b < p.numBlocks)
    (hcount : ∀ b, (o.getD []).count b + held'.count b = (p.table seqId).count b + held.count b) :
    { p with seqBlocks := Function.update p.seqBlocks seqId o }.Host held' :=
  ⟨hp.toSound.setTable seqId o hnodup hlt hcount, hp.ready_iff, hp.ready_index, hp.ready_hashOf, hp.index_ready,
    hp.lru_iff⟩

/-- A free block is not `Ready`, so that taking it evicts nothing. -/
theorem not_ready_of_free (hp : p.Host held) {b : ℕ} (hb : b ∈ p.freeBlocks) : (p.blocks b).state ≠ .ready :=
  fun hready => ((hp.ready_iff b (hp.free_lt b hb)).1 hready).2 hb

theorem evictedReadyMeta_free (hp : p.Host held) {b : ℕ} (hb : b ∈ p.freeBlocks) : p.evictedReadyMeta b = none := by
  unfold evictedReadyMeta getBlock
  rw [if_pos (hp.free_lt b hb)]
  exact if_pos (.inl (hp.not_ready_of_free hb))

/-- A block that is not `Ready` gets other contents that are not `Ready`: the index and the queue need no change. -/
theorem setBlock_not_ready {held' : List ℕ} (hp : p.Host held) {b : ℕ} (hold : (p.blocks b).state ≠ .ready)
    (m : BlockMeta) (hnew : m.state ≠ .ready) (free : List ℕ)
    (hsound : ({ p.setBlock b m with freeBlocks := free } : BlockPool).Sound held')
    (hfree : ∀ c, c ≠ b → (c ∈ free ↔ c ∈ p.freeBlocks)) (hb : m.refCount ≠ 0 ∨ b ∈ free) :
    ({ p.setBlock b m with freeBlocks := free } : BlockPool).Host held' := by
  have hblocks : ∀ c, c ≠ b → Function.update p.blocks b m c = p.blocks c :=
    fun c hc => Function.update_of_ne hc _ _
  have hne : ∀ c, (Function.update p.blocks b m c).state = .ready → c ≠ b := by
    rintro c hc rfl
    rw [Function.update_self] at hc
    exact hnew hc
  refine ⟨hsound, ?_, ?_, ?_, ?_, hp.lru_iff⟩
  · intro c hc
    by_cases hcb : c = b
    · subst hcb
      simp only [setBlock, Function.update_self]
      refine ⟨fun h => absurd h hnew, fun h => ?_⟩
      rcases hb with hb | hb
      · exact absurd h.1 hb
      · exact absurd hb h.2
    · simp only [setBlock, hblocks c hcb, hfree c hcb]
      exact hp.ready_iff c hc
  · intro c hc hready
    have hcb := hne c hready
    simp only [setBlock, hblocks c hcb] at hready ⊢
    exact hp.ready_index c hc hready
  · intro c hc hready
    have hcb := hne c hready
    simp only [setBlock, hblocks c hcb] at hready ⊢
    exact hp.ready_hashOf c hc hready
  · intro h c hc
    have hready := hp.index_ready h c hc
    have hcb : c ≠ b := by
      rintro rfl
      exact hold hready.1
    simpa only [setBlock, hblocks c hcb] using hready

theorem allocateFresh {b : ℕ} {evicted : Option EvictedBlock} (hp : p.Host held)
    (h : p.allocateFreshWithEviction = (.ok (b, evicted), p')) : p'.Host (b :: held) := by
  have hsound := hp.toSound.fresh (allocateFreshWithEviction_fresh h).1
  unfold allocateFreshWithEviction at h
  split at h
  case h_1 => cases h
  case h_2 b' free hfree =>
    have hbfree : b' ∈ p.freeBlocks := hfree ▸ List.mem_cons_self
    rw [hp.evictedReadyMeta_free hbfree] at h
    simp only [Prod.mk.injEq, Except.ok.injEq] at h
    obtain ⟨⟨rfl, rfl⟩, rfl⟩ := h
    refine hp.setBlock_not_ready (hp.not_ready_of_free hbfree) BlockMeta.resetPending
      (by simp [BlockMeta.resetPending]) free
      hsound ?_ (.inl (by simp [BlockMeta.resetPending]))
    intro c hc
    rw [hfree, List.mem_cons]
    simp [hc]

/-- A block with a reference is not `Ready`. -/
theorem not_ready_of_refCount (hp : p.Host held) {b : ℕ} (hb : b < p.numBlocks) (h : (p.blocks b).refCount ≠ 0) :
    (p.blocks b).state ≠ .ready :=
  fun hready => h ((hp.ready_iff b hb).1 hready).1

theorem releaseOne {b : ℕ} (hp : p.Host (b :: held)) (hb : b < p.numBlocks) : (p.releaseOne b).Host held := by
  have hsound := hp.toSound.releaseOne hb
  have hrc := hp.refCount_eq b
  rw [count_cons_eq, List.count_singleton_self] at hrc
  have hold := hp.not_ready_of_refCount hb (by omega)
  have hbfree : b ∉ p.freeBlocks := fun hmem => by
    have := hp.free_refCount b hmem
    omega
  unfold BlockPool.releaseOne at hsound ⊢
  rw [if_pos hb] at hsound ⊢
  dsimp only at hsound ⊢
  set m : BlockMeta := { p.blocks b with refCount := (p.blocks b).refCount - 1 } with hm
  split
  case isTrue hlast =>
    rw [if_pos hlast] at hsound
    refine hp.setBlock_not_ready hold m hold (b :: p.freeBlocks) hsound ?_ (.inr List.mem_cons_self)
    intro c hc
    simp [hc]
  case isFalse hlast =>
    rw [if_neg hlast] at hsound
    refine hp.setBlock_not_ready hold m hold p.freeBlocks hsound (fun c _ => Iff.rfl) (.inl ?_)
    exact fun hzero => hlast ⟨hzero, hbfree⟩

theorem kept : Kept Host where
  sound := Host.toSound
  congr_held := Host.congr_held
  setTable := Host.setTable
  allocateFresh := Host.allocateFresh
  releaseOne := Host.releaseOne

/-! ### Lookups, tables and stored prefixes -/

omit [Xxh3] in
theorem mem_touchReadyHash_lru (p : BlockPool) {h : ℤ} (hh : h ≠ -1) (k : ℤ) :
    k ∈ (p.touchReadyHash h).readyLru ↔ k = h ∨ k ∈ p.readyLru := by
  unfold BlockPool.touchReadyHash
  rw [if_neg hh]
  by_cases hk : k = h <;> simp [hk]

/-- Only hashes of the index are touched. -/
theorem touchReadyHash (hp : p.Host held) {h : ℤ} (hindex : p.hashToBlockId h ≠ none) :
    (p.touchReadyHash h).Host held := by
  by_cases hh : h = -1
  · unfold BlockPool.touchReadyHash
    rwa [if_pos hh]
  · refine ⟨hp.toSound.congr (by simp) (by simp) (by simp) (by simp) ?_ (touchReadyHash_lru hp.lru_nodup h), ?_, ?_,
      ?_, ?_, ?_⟩
    · intro k b hb
      rw [touchReadyHash_hashToBlockId] at hb
      exact hp.index_lt k b hb
    · simpa using hp.ready_iff
    · simpa using hp.ready_index
    · simpa using hp.ready_hashOf
    · simpa using hp.index_ready
    · intro k
      rw [mem_touchReadyHash_lru p hh, touchReadyHash_hashToBlockId, hp.lru_iff]
      refine ⟨?_, .inr⟩
      rintro (rfl | hk)
      · exact hindex
      · exact hk

theorem lookup (hp : p.Host held) (hash : ℤ) (tokens : List ℤ) :
    (p.lookupReadyPrefixBlock hash tokens).2.Host held := by
  unfold lookupReadyPrefixBlock
  split
  case h_1 => exact hp
  case h_2 b hb =>
    refine hp.touchReadyHash ?_
    rw [(lookupReadyBlock_some hb).2.1]
    simp

/-- `ensure_blocks` as the host pools use it, without the prefix cache. -/
theorem ensureBlocks {out : List ℕ} (hp : p.Host held) (seqId : ℕ) (tokenIds : List ℤ) (tokens : ℤ)
    (h : p.ensureBlocks seqId tokenIds tokens false = (.ok out, p')) : p'.Host held := by
  unfold BlockPool.ensureBlocks at h
  dsimp only at h
  split at h
  case isTrue =>
    have hgrow := Host.kept.growExisting hp seqId (p.numBlocksForTokens tokens)
    rw [h] at hgrow
    exact hgrow
  case isFalse hnew =>
    split at h
    case isTrue => cases h
    case isFalse =>
      have hplan : p.planNewBlocks tokenIds (p.numBlocksForTokens tokens) false =
          List.replicate (p.numBlocksForTokens tokens) none := planLoop_miss p tokenIds _ 0 (-1)
      rw [hplan] at h
      split at h
      case h_1 => cases h
      case h_2 out' p₁ htake =>
        obtain ⟨hout, rfl⟩ := Prod.mk.inj h
        cases hout
        obtain ⟨hinv, hn, htab, hnodup, hfree⟩ := Host.kept.takeFresh hp htake
        refine hinv.setTable seqId (some out) hnodup ?_ ?_
        · intro b hb
          rw [hn]
          exact hp.free_lt b (hfree hb)
        · intro b
          have htable : p₁.table seqId = [] := by
            unfold table
            rw [htab]
            exact table_of_not_hasSeq hnew
          rw [htable]
          simp only [Option.getD_some, List.count_append, List.count_nil]
          omega

/-- A prefix that leaves the host pool: its block is as if it were free. -/
theorem evictReadyCacheBlock {b : ℕ} (hp : p.Host held) (h : p.evictReadyCacheBlock = (some b, p')) :
    { p' with freeBlocks := b :: p'.freeBlocks }.Host held := by
  unfold BlockPool.evictReadyCacheBlock at h
  cases hlru : p.readyLru with
  | nil =>
    rw [hlru] at h
    cases h
  | cons hash lru =>
    rw [hlru] at h
    have hindex := (hp.lru_iff hash).1 (hlru ▸ List.mem_cons_self)
    obtain ⟨b', hb'⟩ := Option.ne_none_iff_exists'.1 hindex
    obtain ⟨hready, hhash⟩ := hp.index_ready hash b' hb'
    have hlt := hp.index_lt hash b' hb'
    obtain ⟨hrc, hnotFree⟩ := (hp.ready_iff b' hlt).1 hready
    have hnodup : hash ∉ lru ∧ lru.Nodup := List.nodup_cons.1 (hlru ▸ hp.lru_nodup)
    unfold evictLoop at h
    simp only [hb', hlt, hrc, hready, and_self, if_true] at h
    obtain ⟨hb, rfl⟩ := Prod.mk.inj h
    cases hb
    set m : BlockMeta := ⟨0, -1, [], .empty⟩ with hm
    have hblocks : ∀ c, c ≠ b → Function.update p.blocks b m c = p.blocks c :=
      fun c hc => Function.update_of_ne hc _ _
    have hne : ∀ c, (Function.update p.blocks b m c).state = .ready → c ≠ b := by
      rintro c hc rfl
      rw [Function.update_self] at hc
      cases hc
    -- no other block has the hash that leaves the index
    have hother : ∀ c, c ≠ b → ∀ k, p.hashToBlockId k = some c → k ≠ hash := by
      rintro c hc k hk rfl
      rw [hb'] at hk
      exact hc (Option.some.inj hk).symm
    refine ⟨hp.toSound.congr_free rfl ?_ rfl (List.nodup_cons.2 ⟨hnotFree, hp.free_nodup⟩) ?_ ?_ hnodup.2, ?_, ?_,
      ?_, ?_, ?_⟩
    · intro c
      by_cases hc : c = b
      · subst hc
        simp [setBlock, hm, hrc]
      · simp only [setBlock, hblocks c hc]
    · intro c hc
      rcases List.mem_cons.1 hc with rfl | hc
      · exact ⟨hlt, hrc⟩
      · exact ⟨hp.free_lt c hc, hp.free_refCount c hc⟩
    · intro k c hc
      by_cases hk : k = hash
      · simp [setBlock, hk] at hc
      · simp only [setBlock, Function.update_of_ne hk] at hc
        exact hp.index_lt k c hc
    · intro c hc
      by_cases hcb : c = b
      · subst hcb
        simp [setBlock, hm]
      · simp only [setBlock, hblocks c hcb, List.mem_cons, hcb, false_or]
        exact hp.ready_iff c hc
    · intro c hc hready
      have hcb := hne c hready
      simp only [setBlock, hblocks c hcb] at hready ⊢
      have hc' := hp.ready_index c hc hready
      rwa [Function.update_of_ne (hother c hcb _ hc')]
    · intro c hc hready
      have hcb := hne c hready
      simp only [setBlock, hblocks c hcb] at hready ⊢
      exact hp.ready_hashOf c hc hready
    · intro k c hc
      by_cases hk : k = hash
      · simp [setBlock, hk] at hc
      · simp only [setBlock, Function.update_of_ne hk] at hc ⊢
        have hc' := hp.index_ready k c hc
        have hcb : c ≠ b := by
          rintro rfl
          exact hk (hc'.2.symm.trans hhash)
        rwa [hblocks c hcb]
    · intro k
      have hk := hp.lru_iff k
      rw [hlru, List.mem_cons] at hk
      by_cases hkh : k = hash
      · subst hkh
        simpa [setBlock] using hnodup.1
      · simp only [setBlock, Function.update_of_ne hkh]
        rw [← hk, or_iff_right hkh]

omit [Xxh3] in
/-- Evictions only remove entries of the index. -/
theorem evictLoop_index {lru : List ℤ} {o : Option ℕ} {h : ℤ} (hrun : p.evictLoop lru = (o, p'))
    (hindex : p.hashToBlockId h = none) : p'.hashToBlockId h = none := by
  have hupdate : ∀ (f : ℤ → Option ℕ) (k : ℤ), f h = none → Function.update f k none h = none := by
    intro f k hf
    by_cases hk : h = k
    · simp [hk]
    · rwa [Function.update_of_ne hk]
  induction lru generalizing p with
  | nil =>
    obtain ⟨-, rfl⟩ := Prod.mk.inj hrun
    exact hindex
  | cons hash lru ih =>
    unfold evictLoop at hrun
    split at hrun
    case h_1 => exact ih hrun hindex
    case h_2 b hb =>
      dsimp only at hrun
      split at hrun
      case isFalse => exact ih hrun (hupdate _ hash hindex)
      case isTrue =>
        split at hrun
        case isFalse => exact ih hrun hindex
        case isTrue =>
          obtain ⟨-, rfl⟩ := Prod.mk.inj hrun
          exact hupdate _ hash hindex

/-- A prefix that enters the host pool, in a block that was free. -/
theorem storeInto (hash : HashInjective) {b : ℕ} (hp : { p with freeBlocks := b :: p.freeBlocks }.Host held) {h : ℤ}
    {tokens : List ℤ} (hhash : HashOf h tokens) (hindex : p.hashToBlockId h = none) :
    ({ p.setBlock b ⟨0, h, tokens, .ready⟩ with
      hashToBlockId := Function.update p.hashToBlockId h (some b) }.touchReadyHash h).Host held := by
  have hbfree : b ∈ ({ p with freeBlocks := b :: p.freeBlocks } : BlockPool).freeBlocks := List.mem_cons_self
  have hlt : b < p.numBlocks := hp.free_lt b hbfree
  have hrc : (p.blocks b).refCount = 0 := hp.free_refCount b hbfree
  have hold : (p.blocks b).state ≠ .ready := hp.not_ready_of_free hbfree
  have hnodup : b ∉ p.freeBlocks ∧ p.freeBlocks.Nodup := List.nodup_cons.1 hp.free_nodup
  have hneg : h ≠ -1 := by
    obtain ⟨views, rfl⟩ := hhash
    exact hash.ne_neg_one _ _
  set m : BlockMeta := ⟨0, h, tokens, .ready⟩ with hm
  have hblocks : ∀ c, c ≠ b → Function.update p.blocks b m c = p.blocks c :=
    fun c hc => Function.update_of_ne hc _ _
  -- no other entry of the index can be under `h`, since none is
  have hother : ∀ c k, p.hashToBlockId k = some c → k ≠ h := by
    rintro c k hk rfl
    rw [hindex] at hk
    cases hk
  -- the block's own entry is new in every clause; all others are as before
  refine ⟨hp.toSound.congr_free (by simp [setBlock]) ?_ (by simp [setBlock])
    (by simpa [setBlock] using hnodup.2) ?_ ?_ ?_,
    ?_, ?_, ?_, ?_, ?_⟩
  · intro c
    rw [touchReadyHash_blocks]
    by_cases hc : c = b
    · subst hc
      simp [setBlock, hm, hrc]
    · simp only [setBlock, hblocks c hc]
  · intro c hc
    rw [touchReadyHash_freeBlocks] at hc
    have hmem : c ∈ b :: p.freeBlocks := List.mem_cons_of_mem b hc
    exact ⟨hp.free_lt c hmem, hp.free_refCount c hmem⟩
  · intro k c hc
    rw [touchReadyHash_hashToBlockId] at hc
    by_cases hk : k = h
    · subst hk
      simp only [Function.update_self, Option.some.injEq] at hc
      exact hc ▸ hlt
    · simp only [Function.update_of_ne hk] at hc
      exact hp.index_lt k c hc
  · refine touchReadyHash_lru ?_ h
    exact hp.lru_nodup
  · intro c hc
    rw [touchReadyHash_numBlocks] at hc
    rw [touchReadyHash_blocks, touchReadyHash_freeBlocks]
    by_cases hcb : c = b
    · subst hcb
      simp [setBlock, hm, hnodup.1]
    · have hc' := hp.ready_iff c hc
      simp only [setBlock, hblocks c hcb]
      simpa [hcb] using hc'
  · intro c hc hready
    rw [touchReadyHash_numBlocks] at hc
    rw [touchReadyHash_blocks] at hready ⊢
    rw [touchReadyHash_hashToBlockId]
    by_cases hcb : c = b
    · subst hcb
      simp [setBlock, hm]
    · simp only [setBlock, hblocks c hcb] at hready ⊢
      have hc' : p.hashToBlockId (p.blocks c).hash = some c := hp.ready_index c hc hready
      rwa [Function.update_of_ne (hother c _ hc')]
  · intro c hc hready
    rw [touchReadyHash_numBlocks] at hc
    rw [touchReadyHash_blocks] at hready ⊢
    by_cases hcb : c = b
    · subst hcb
      simpa [setBlock, hm] using hhash
    · simp only [setBlock, hblocks c hcb] at hready ⊢
      exact hp.ready_hashOf c hc hready
  · intro k c hc
    rw [touchReadyHash_hashToBlockId] at hc
    rw [touchReadyHash_blocks]
    by_cases hk : k = h
    · subst hk
      simp only [Function.update_self, Option.some.injEq] at hc
      subst hc
      simp [setBlock, hm]
    · simp only [Function.update_of_ne hk] at hc
      have hc' := hp.index_ready k c hc
      have hcb : c ≠ b := by
        rintro rfl
        exact hold hc'.1
      simpa only [setBlock, hblocks c hcb] using hc'
  · intro k
    rw [mem_touchReadyHash_lru _ hneg, touchReadyHash_hashToBlockId]
    by_cases hk : k = h
    · subst hk
      simp
    · simp only [Function.update_of_ne hk, hk, false_or]
      exact hp.lru_iff k

/-- `store_ready_cache_block` keeps a host pool in order: by its hash a prefix is stored once. -/
theorem storeReadyCacheBlock (hash : HashInjective) {b : ℕ} (hp : p.Host held) {h : ℤ} {tokens : List ℤ}
    (hhash : HashOf h tokens) (hstore : p.storeReadyCacheBlock h tokens = (.ok b, p')) : p'.Host held := by
  unfold BlockPool.storeReadyCacheBlock at hstore
  split at hstore
  case h_1 b' hlookup =>
    obtain ⟨-, rfl⟩ := Prod.mk.inj hstore
    refine hp.touchReadyHash ?_
    rw [(lookupReadyBlock_some hlookup).2.1]
    simp
  case h_2 hlookup =>
    -- a block indexed under this hash would have these tokens
    have hindex : p.hashToBlockId h = none := by
      by_contra hne
      obtain ⟨c, hc⟩ := Option.ne_none_iff_exists'.1 hne
      have hlt := hp.index_lt h c hc
      obtain ⟨hready, hch⟩ := hp.index_ready h c hc
      obtain ⟨views, hviews⟩ := hhash
      obtain ⟨views', hviews'⟩ := hp.ready_hashOf c hlt hready
      have htokens : (p.blocks c).tokenIds = tokens := (hash.inj (hviews'.symm.trans (hch.trans hviews))).1
      simp [lookupReadyBlock, hc, getBlock, hlt, BlockMeta.readyMatches, hready, hch, htokens] at hlookup
    dsimp only at hstore
    split at hstore
    case h_1 => cases hstore
    case h_2 b' q htaken =>
      have hq : { q with freeBlocks := b' :: q.freeBlocks }.Host held ∧ q.hashToBlockId h = none := by
        split at htaken
        case h_1 b₀ free hfree =>
          obtain ⟨hb, rfl⟩ := Prod.mk.inj htaken
          cases hb
          refine ⟨?_, hindex⟩
          have hpool : ({ p with freeBlocks := b' :: free } : BlockPool) = p := by rw [← hfree]
          exact hpool.symm ▸ hp
        case h_2 => exact ⟨hp.evictReadyCacheBlock htaken, evictLoop_index htaken hindex⟩
      -- a free block is in no index entry
      have hskip : ¬((q.blocks b').hash ≠ -1 ∧ q.hashToBlockId (q.blocks b').hash = some b') := by
        rintro ⟨-, hq'⟩
        exact hq.1.not_ready_of_free List.mem_cons_self (hq.1.index_ready _ _ hq').1
      rw [if_neg hskip] at hstore
      obtain ⟨-, rfl⟩ := Prod.mk.inj hstore
      exact hq.1.storeInto hash hhash hq.2

end Host

end BlockPool

end NanoEngine
