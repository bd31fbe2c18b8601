import NanoEngine.Cache.HostPool

/-!
# NanoEngine.Cache.PoolRuns — the pools along any run of their operations

* `reserveLoop_pools`: the loop of `cache_ensure_group_blocks_with_host_prefix` takes distinct blocks and keeps
  both pools of its rank in order.
* `hbmSystem` and `hostSystem`: one pool and the operations that the scheduler does on it.
-/

namespace NanoEngine

open Counting Transition

namespace CacheState

variable {c c' : CacheState} {flat : ℕ}

@[simp] theorem setHbmPool_self (c : CacheState) (flat : ℕ) (p : BlockPool) :
    (c.setHbmPool flat p).hbmPools flat = p :=
  Function.update_self _ _ _

@[simp] theorem setHostPool_self (c : CacheState) (flat : ℕ) (p : BlockPool) :
    (c.setHostPool flat p).hostPools flat = p :=
  Function.update_self _ _ _

@[simp] theorem setHostPool_hbmPools (c : CacheState) (flat : ℕ) (p : BlockPool) :
    (c.setHostPool flat p).hbmPools = c.hbmPools := rfl

@[simp] theorem setHbmPool_hostPools (c : CacheState) (flat : ℕ) (p : BlockPool) :
    (c.setHbmPool flat p).hostPools = c.hostPools := rfl

@[simp] theorem pushPendingSwapIn_hbmPools (c : CacheState) (flat seqId : ℕ) (fromBlocks toBlocks : List ℕ) :
    (c.pushPendingSwapIn flat seqId fromBlocks toBlocks).hbmPools = c.hbmPools := rfl

theorem writeBackEvictedPrefix_hbmPools (c : CacheState) (flat : ℕ) (evicted : Option EvictedBlock)
    (hostEnabled : Bool) :
    (c.writeBackEvictedPrefix flat evicted hostEnabled).2.hbmPools = c.hbmPools := by
  unfold writeBackEvictedPrefix
  split
  case h_1 => rfl
  case h_2 =>
    split
    case isFalse => rfl
    case isTrue => split <;> rfl

/-- What one iteration of the reserve loop does to the HBM pool when it finds block `b`. -/
structure Reserved (p : BlockPool) (hash : ℤ) (lookup : Bool) (b : ℕ) (cacheMiss : Bool)
    (p' : BlockPool) : Prop where
  numBlocks : p'.numBlocks = p.numBlocks
  seqBlocks : p'.seqBlocks = p.seqBlocks
  blocks : ∀ c, c ≠ b → p'.blocks c = p.blocks c
  freeBlocks : p'.freeBlocks ⊆ p.freeBlocks
  lookup_of_hit : cacheMiss = false → lookup = true ∧ (p'.blocks b).hash = hash
  source : b ∈ p.freeBlocks ∨ cacheMiss = false ∧ b < p.numBlocks ∧ (p.blocks b).hash = hash

theorem Reserved.of_fresh {p p' : BlockPool} {hash : ℤ} {lookup : Bool} {b : ℕ} {cacheMiss : Bool}
    (h : BlockPool.Fresh p b p')
    (hhit : cacheMiss = false → lookup = true ∧ (p'.blocks b).hash = hash) :
      Reserved p hash lookup b cacheMiss p' where
  numBlocks := h.numBlocks
  seqBlocks := h.seqBlocks
  blocks := h.blocks
  freeBlocks := h.freeBlocks ▸ List.subset_cons_self b p'.freeBlocks
  lookup_of_hit := hhit
  source := .inl (h.freeBlocks ▸ List.mem_cons_self)

/-- The lookup before only moves the hash in the queue. -/
theorem Reserved.of_touch {p p' : BlockPool} {hash : ℤ} {lookup : Bool} {b : ℕ} {cacheMiss : Bool}
    (h : Reserved (p.touchReadyHash hash) hash lookup b cacheMiss p') : Reserved p hash lookup b cacheMiss p' := by
  obtain ⟨hn, htab, hblocks, hfree, hhit, hsource⟩ := h
  simp only [BlockPool.touchReadyHash_numBlocks, BlockPool.touchReadyHash_seqBlocks, BlockPool.touchReadyHash_blocks,
    BlockPool.touchReadyHash_freeBlocks] at hn htab hblocks hfree hsource
  exact ⟨hn, htab, hblocks, hfree, hhit, hsource⟩

variable [Xxh3]

theorem reserveFresh_hbm {hostEnabled : Bool} {b : ℕ} {held : List ℕ} (hash : ℤ) (lookup : Bool)
    (h : c.reserveFresh flat hostEnabled = (.ok b, c')) (hp : (c.hbmPools flat).Hbm held) :
    Reserved (c.hbmPools flat) hash lookup b true (c'.hbmPools flat) ∧ (c'.hbmPools flat).Hbm (b :: held) := by
  unfold reserveFresh at h
  split at h
  case h_1 => cases h
  case h_2 b' evicted p₁ hfresh =>
    have hpools := writeBackEvictedPrefix_hbmPools (c.setHbmPool flat p₁) flat evicted hostEnabled
    split at h
    case h_1 => cases h
    case h_2 c₁ hwrite =>
      obtain ⟨hb, rfl⟩ := Prod.mk.inj h
      cases hb
      rw [hwrite] at hpools
      rw [hpools, setHbmPool_self]
      exact ⟨.of_fresh (BlockPool.allocateFreshWithEviction_fresh hfresh).1 (by simp), hp.allocateFresh hfresh⟩

theorem reservePromoted_hbm {hostEnabled : Bool} {seqId b hostBlock : ℕ} {held : List ℕ}
    {hash : ℤ} {view : List ℤ}
    (h : c.reservePromoted flat seqId hash view hostBlock hostEnabled = (.ok b, c')) (hp : (c.hbmPools flat).Hbm held)
    (hhash : BlockPool.HashOf hash view) :
    Reserved (c.hbmPools flat) hash true b false (c'.hbmPools flat) ∧ (c'.hbmPools flat).Hbm (b :: held) := by
  unfold reservePromoted at h
  split at h
  case h_1 => cases h
  case h_2 b' evicted p₁ hfresh =>
    have hpools := writeBackEvictedPrefix_hbmPools (c.setHbmPool flat p₁) flat evicted hostEnabled
    split at h
    case h_1 => cases h
    case h_2 c₁ hwrite =>
      obtain ⟨hb, rfl⟩ := Prod.mk.inj h
      cases hb
      rw [hwrite] at hpools
      rw [pushPendingSwapIn_hbmPools, hpools, setHbmPool_self]
      obtain ⟨hf, hmeta, -⟩ := BlockPool.allocatePromotedReady_fresh hfresh
      exact ⟨.of_fresh hf fun _ => ⟨rfl, by rw [hmeta]⟩, hp.allocatePromoted hhash hfresh⟩

theorem reserveRetained_hbm {b b' : ℕ} {held : List ℕ} (hash : ℤ)
    (h : c.reserveRetained flat b = (.ok b', c')) (hp : (c.hbmPools flat).Hbm held)
    (hhash : ((c.hbmPools flat).blocks b).hash = hash) :
    b' = b ∧ Reserved (c.hbmPools flat) hash true b false (c'.hbmPools flat) ∧
      (c'.hbmPools flat).Hbm (b :: held) := by
  unfold reserveRetained at h
  split at h
  case h_1 => cases h
  case h_2 p₁ hretain =>
    obtain ⟨hb, rfl⟩ := Prod.mk.inj h
    cases hb
    rw [setHbmPool_self]
    refine ⟨rfl, ?_, hp.retainBlock hretain⟩
    obtain ⟨hlt, rfl⟩ := BlockPool.retainBlock_ok hretain
    refine ⟨rfl, rfl, ?_, ?_, fun _ => ⟨rfl, ?_⟩, .inr ⟨rfl, hlt, hhash⟩⟩
    · intro d hd
      simp [BlockPool.setBlock, Function.update_of_ne hd]
    · exact fun d hd => (List.mem_filter.1 hd).1
    · simpa [BlockPool.setBlock] using hhash

/-- One iteration: a block of the index, a promoted one or a fresh one. -/
theorem reserveStep_hbm {hostEnabled lookup cacheMiss : Bool} {seqId b : ℕ} {held : List ℕ}
    {hash : ℤ} {view : List ℤ}
    (h : c.reserveStep flat seqId hash view lookup hostEnabled = (.ok b, cacheMiss, c'))
    (hp : (c.hbmPools flat).Hbm held) (hhash : lookup = true → BlockPool.HashOf hash view) :
    Reserved (c.hbmPools flat) hash lookup b cacheMiss (c'.hbmPools flat) ∧ (c'.hbmPools flat).Hbm (b :: held) := by
  unfold reserveStep at h
  split at h
  case isFalse =>
    simp only [Prod.mk.injEq] at h
    obtain ⟨h₁, rfl, h₂⟩ := h
    exact reserveFresh_hbm hash lookup (Prod.ext h₁ h₂) hp
  case isTrue hlookup =>
    cases hlookup
    cases hl : (c.hbmPools flat).lookupReadyBlock hash view with
    -- a hit is held once more; a miss goes to the host pool
    | some b₀ =>
      simp only [BlockPool.lookupReadyPrefixBlock, hl, Prod.mk.injEq] at h
      obtain ⟨h₁, rfl, h₂⟩ := h
      have hbhash := (BlockPool.lookupReadyBlock_some hl).2.2.2.1
      have htouch := hp.touchReadyHash hash
      rw [← setHbmPool_self c flat ((c.hbmPools flat).touchReadyHash hash)] at htouch
      obtain ⟨rfl, hres, hinv⟩ := reserveRetained_hbm hash (Prod.ext h₁ h₂) htouch (by simpa using hbhash)
      rw [setHbmPool_self] at hres
      exact ⟨hres.of_touch, hinv⟩
    | none =>
      simp only [BlockPool.lookupReadyPrefixBlock, hl] at h
      cases hh : (c.hostPools flat).lookupReadyBlock hash view with
      | some hostBlock =>
        simp only [setHbmPool_hostPools, hh, Prod.mk.injEq] at h
        obtain ⟨h₁, rfl, h₂⟩ := h
        have hpromoted := reservePromoted_hbm (Prod.ext h₁ h₂) (by simpa using hp) (hhash rfl)
        simpa using hpromoted
      | none =>
        simp only [setHbmPool_hostPools, hh, Prod.mk.injEq] at h
        obtain ⟨h₁, rfl, h₂⟩ := h
        have hfresh := reserveFresh_hbm hash true (Prod.ext h₁ h₂) (by simpa using hp)
        simpa using hfresh

/-! ## The host pool beside it -/

omit [Xxh3] in
@[simp] theorem pushPendingSwapIn_hostPools (c : CacheState) (flat seqId : ℕ) (fromBlocks toBlocks : List ℕ) :
    (c.pushPendingSwapIn flat seqId fromBlocks toBlocks).hostPools = c.hostPools := rfl

/-- What an allocation evicts from HBM carries the hash of its tokens. -/
theorem evictedReadyMeta_hashOf {p : BlockPool} {held : List ℕ} {b : ℕ} {e : EvictedBlock} (hp : p.Hbm held)
    (h : p.evictedReadyMeta b = some e) : BlockPool.HashOf e.hash e.tokenIds := by
  unfold BlockPool.evictedReadyMeta at h
  split at h
  case h_1 => cases h
  case h_2 m hget =>
    split at h
    case isTrue => cases h
    case isFalse hready =>
      cases h
      unfold BlockPool.getBlock at hget
      split at hget
      case isFalse => cases hget
      case isTrue =>
        cases hget
        exact hp.ready_hashOf b (not_not.1 fun hne => hready (.inl hne))

/-- A write-back stores in the host pool only what belongs under its hash. -/
theorem writeBackEvictedPrefix_host (hash : BlockPool.HashInjective)
    {evicted : Option EvictedBlock} {hostEnabled : Bool}
    {held : List ℕ} (hevicted : ∀ e, evicted = some e → BlockPool.HashOf e.hash e.tokenIds)
    (h : c.writeBackEvictedPrefix flat evicted hostEnabled = (.ok (), c')) (hp : (c.hostPools flat).Host held) :
    (c'.hostPools flat).Host held := by
  unfold writeBackEvictedPrefix at h
  split at h
  case h_1 =>
    obtain ⟨-, rfl⟩ := Prod.mk.inj h
    exact hp
  case h_2 e =>
    split at h
    case isFalse =>
      obtain ⟨-, rfl⟩ := Prod.mk.inj h
      exact hp
    case isTrue =>
      split at h
      case h_1 => cases h
      case h_2 hostBlock p hstore =>
        obtain ⟨-, rfl⟩ := Prod.mk.inj h
        show ((c.setHostPool flat p).hostPools flat).Host held
        rw [setHostPool_self]
        exact hp.storeReadyCacheBlock hash (hevicted e rfl) hstore

theorem reserveFresh_host (hash : BlockPool.HashInjective) {hostEnabled : Bool} {b : ℕ} {held hostHeld : List ℕ}
    (h : c.reserveFresh flat hostEnabled = (.ok b, c')) (hp : (c.hbmPools flat).Hbm held)
    (hq : (c.hostPools flat).Host hostHeld) : (c'.hostPools flat).Host hostHeld := by
  unfold reserveFresh at h
  split at h
  case h_1 => cases h
  case h_2 b' evicted p₁ hfresh =>
    split at h
    case h_1 => cases h
    case h_2 c₁ hwrite =>
      obtain ⟨-, rfl⟩ := Prod.mk.inj h
      refine writeBackEvictedPrefix_host hash ?_ hwrite hq
      rintro e rfl
      exact evictedReadyMeta_hashOf hp (BlockPool.allocateFreshWithEviction_fresh hfresh).2.2.symm

theorem reservePromoted_host (hash : BlockPool.HashInjective) {hostEnabled : Bool} {seqId b hostBlock : ℕ}
    {held hostHeld : List ℕ} {h : ℤ} {view : List ℤ}
    (hres : c.reservePromoted flat seqId h view hostBlock hostEnabled = (.ok b, c')) (hp : (c.hbmPools flat).Hbm held)
    (hq : (c.hostPools flat).Host hostHeld) : (c'.hostPools flat).Host hostHeld := by
  unfold reservePromoted at hres
  split at hres
  case h_1 => cases hres
  case h_2 b' evicted p₁ hfresh =>
    split at hres
    case h_1 => cases hres
    case h_2 c₁ hwrite =>
      obtain ⟨-, rfl⟩ := Prod.mk.inj hres
      rw [pushPendingSwapIn_hostPools]
      refine writeBackEvictedPrefix_host hash ?_ hwrite hq
      rintro e rfl
      exact evictedReadyMeta_hashOf hp (BlockPool.allocatePromotedReady_fresh hfresh).2.2.symm

omit [Xxh3] in
theorem reserveRetained_host {b b' : ℕ} (h : c.reserveRetained flat b = (.ok b', c')) :
    c'.hostPools = c.hostPools := by
  unfold reserveRetained at h
  split at h
  case h_1 => cases h
  case h_2 =>
    obtain ⟨-, rfl⟩ := Prod.mk.inj h
    rfl

theorem reserveStep_host (hash : BlockPool.HashInjective) {hostEnabled lookup cacheMiss : Bool} {seqId b : ℕ}
    {held hostHeld : List ℕ} {h : ℤ} {view : List ℤ}
    (hstep : c.reserveStep flat seqId h view lookup hostEnabled = (.ok b, cacheMiss, c'))
    (hp : (c.hbmPools flat).Hbm held) (hq : (c.hostPools flat).Host hostHeld) : (c'.hostPools flat).Host hostHeld := by
  unfold reserveStep at hstep
  split at hstep
  case isFalse =>
    simp only [Prod.mk.injEq] at hstep
    obtain ⟨h₁, -, h₂⟩ := hstep
    exact reserveFresh_host hash (Prod.ext h₁ h₂) hp hq
  case isTrue =>
    have hp' := hp.lookup h view
    have hq' := hq.lookup h view
    dsimp only at hstep
    split at hstep
    case h_1 b₀ _ =>
      simp only [Prod.mk.injEq] at hstep
      obtain ⟨h₁, -, h₂⟩ := hstep
      rw [reserveRetained_host (Prod.ext h₁ h₂)]
      exact hq
    case h_2 =>
      split at hstep
      case h_1 hostBlock _ =>
        simp only [Prod.mk.injEq] at hstep
        obtain ⟨h₁, -, h₂⟩ := hstep
        exact reservePromoted_host hash (Prod.ext h₁ h₂) (by simpa using hp') (by simpa using hq')
      case h_2 =>
        simp only [Prod.mk.injEq] at hstep
        obtain ⟨h₁, -, h₂⟩ := hstep
        exact reserveFresh_host hash (Prod.ext h₁ h₂) (by simpa using hp') (by simpa using hq')

/-! ## The loop -/

/-- The reserve loop takes distinct blocks: each was free, or carries the hash of a prefix of its own length. -/
theorem reserveLoop_pools (hash : BlockPool.HashInjective) {seqId blockSize n blockIdx : ℕ} {tokenIds : List ℤ}
    {hostEnabled cacheMiss : Bool} {views : List (List ℤ)} {h : ℤ} {out held : List ℕ}
    (hh : cacheMiss = false → h = BlockPool.prefixHash views)
    (hrun : reserveLoop flat seqId tokenIds blockSize hostEnabled n blockIdx h cacheMiss c = (.ok out, c'))
    (hp : (c.hbmPools flat).Hbm held) :
    (c'.hbmPools flat).Hbm (out ++ held) ∧
      (∀ hostHeld, (c.hostPools flat).Host hostHeld → (c'.hostPools flat).Host hostHeld) ∧
      (c'.hbmPools flat).numBlocks = (c.hbmPools flat).numBlocks ∧
      (c'.hbmPools flat).seqBlocks = (c.hbmPools flat).seqBlocks ∧ out.Nodup ∧
      ∀ b ∈ out, b ∈ (c.hbmPools flat).freeBlocks ∨ cacheMiss = false ∧ b < (c.hbmPools flat).numBlocks ∧
        ∃ longer, views.length < longer.length ∧
          ((c.hbmPools flat).blocks b).hash = BlockPool.prefixHash longer := by
  induction n generalizing blockIdx views h cacheMiss c out held with
  | zero =>
    obtain ⟨hout, rfl⟩ := Prod.mk.inj hrun
    cases hout
    exact ⟨hp, fun _ hq => hq, rfl, rfl, List.nodup_nil, by simp⟩
  | succ n ih =>
    rw [reserveLoop] at hrun
    set view := blockView blockSize tokenIds blockIdx with hview
    set lookup := decide (view.length = blockSize) && !cacheMiss with hlookup
    split at hrun
    case h_1 => cases hrun
    case h_2 b cacheMiss₁ c₁ hstep =>
      split at hrun
      case h_1 => cases hrun
      case h_2 out₁ c₂ hrest =>
        obtain ⟨hout, rfl⟩ := Prod.mk.inj hrun
        cases hout
        have hmiss : lookup = true → cacheMiss = false := by
          intro hl
          rw [hlookup, Bool.and_eq_true, Bool.not_eq_true'] at hl
          exact hl.2
        have hnext : lookup = true → (if lookup = true then computeBlockHash view h else h) =
            BlockPool.prefixHash (views ++ [view]) := by
          intro hl
          rw [if_pos hl, hh (hmiss hl), BlockPool.prefixHash_append]
        obtain ⟨hres, hinv⟩ := reserveStep_hbm hstep hp fun hl =>
          ⟨views, by rw [hnext hl, BlockPool.prefixHash_append]⟩
        obtain ⟨hinv₂, hhost, hn, htab, hnodup, hsrc⟩ :=
          ih (fun hm => hnext (hres.lookup_of_hit hm).1) hrest hinv
        -- what is held is not free, and the blocks further on carry hashes of longer prefixes
        have hbfree : b ∉ (c₁.hbmPools flat).freeBlocks := by
          intro hmem
          have := (hinv.occurrences_free hmem).2
          simp at this
        have hb : b ∉ out₁ := by
          intro hmem
          rcases hsrc b hmem with hfree | ⟨hm, -, longer, hlen, hlonger⟩
          · exact hbfree hfree
          · obtain ⟨hl, hbhash⟩ := hres.lookup_of_hit hm
            rw [hnext hl] at hbhash
            rw [← hash.prefixHash_inj _ _ (hbhash.symm.trans hlonger)] at hlen
            omega
        refine ⟨hinv₂.congr_held fun d => List.perm_middle.symm.count_eq d,
          fun hostHeld hq => hhost hostHeld (reserveStep_host hash hstep hp hq), hn.trans hres.numBlocks,
          htab.trans hres.seqBlocks, List.nodup_cons.2 ⟨hb, hnodup⟩, ?_⟩
        intro d hd
        rcases List.mem_cons.1 hd with rfl | hd
        · rcases hres.source with hfree | ⟨hm, hlt, hdhash⟩
          · exact .inl hfree
          · have hl := (hres.lookup_of_hit hm).1
            exact .inr ⟨hmiss hl, hlt, _, by simp, hdhash.trans (hnext hl)⟩
        · have hne : d ≠ b := fun heq => hb (heq ▸ hd)
          rcases hsrc d hd with hfree | ⟨hm, hlt, longer, hlen, hlonger⟩
          · exact .inl (hres.freeBlocks hfree)
          · have hl := (hres.lookup_of_hit hm).1
            rw [hres.blocks d hne] at hlonger
            rw [List.length_append] at hlen
            exact .inr ⟨hmiss hl, hres.numBlocks ▸ hlt, longer, by omega, hlonger⟩

end CacheState

namespace BlockPool

/-! ## Runs of one pool -/

/-- `insert_seq_blocks` for a new sequence: what the loop took becomes its table. -/
theorem Hbm.insertSeqBlocks [Xxh3] {p : BlockPool} {held out : List ℕ} (hp : p.Hbm (out ++ held)) {seqId : ℕ}
    (hnew : ¬ p.hasSeq seqId = true) (hnodup : out.Nodup) (hlt : ∀ b ∈ out, b < p.numBlocks) :
    (p.insertSeqBlocks seqId out).Hbm held := by
  have hfree : p.freeBlocks.filter (fun id => decide (id ∉ out)) = p.freeBlocks := by
    refine List.filter_eq_self.2 fun b hb => ?_
    have hzero := (hp.occurrences_free hb).2
    rw [List.count_append] at hzero
    exact decide_eq_true (List.count_eq_zero.1 (by omega))
  unfold BlockPool.insertSeqBlocks
  rw [hfree]
  refine hp.setTable seqId (some out) hnodup hlt fun b => ?_
  rw [table_of_not_hasSeq hnew]
  simp [List.count_append]

/-- The operations that the scheduler does on an HBM pool. -/
inductive HbmOp
  | ensureBlocks (seqId : ℕ) (tokenIds : List ℤ) (tokens : ℤ) (usePrefixCache : Bool)
  /-- the loop of `cache_ensure_group_blocks_with_host_prefix` for a new sequence, in a cache state that has the pool
  at rank `flat` -/
  | reserve (c : CacheState) (flat seqId : ℕ) (tokenIds : List ℤ)
    (blockSize neededBlocks : ℕ) (hostEnabled : Bool)
  | commitReady (seqId : ℕ) (tokenIds : List ℤ) (committedTokens : ℤ)
  | lookup (hash : ℤ) (tokens : List ℤ)
  | removeSeq (seqId : ℕ)
  | setPrefixCachingEnabled (enabled : Bool)

/-- The operations that the scheduler does on a host pool; `views` are the blocks before the one stored. -/
inductive HostOp
  | ensureBlocks (seqId : ℕ) (tokenIds : List ℤ) (tokens : ℤ)
  | storeReadyCacheBlock (views : List (List ℤ)) (tokens : List ℤ)
  | lookup (hash : ℤ) (tokens : List ℤ)
  | removeSeq (seqId : ℕ)
  | setPrefixCachingEnabled (enabled : Bool)

section runs

variable [Xxh3]

/-- The pool after an operation that succeeds. -/
def hbmNext (p : BlockPool) : HbmOp → Option BlockPool
  | .ensureBlocks seqId tokenIds tokens usePrefixCache =>
    match p.ensureBlocks seqId tokenIds tokens usePrefixCache with
    | (.ok _, p) => some p
    | (.error _, _) => none
  | .reserve c flat seqId tokenIds blockSize neededBlocks hostEnabled =>
    if p.hasSeq seqId then none
    else match CacheState.reserveLoop flat seqId tokenIds blockSize hostEnabled neededBlocks 0 (-1) false
        (c.setHbmPool flat p) with
      | (.ok blocks, c) => some ((c.hbmPools flat).insertSeqBlocks seqId blocks)
      | (.error _, _) => none
  | .commitReady seqId tokenIds committedTokens => some (p.commitReady seqId tokenIds committedTokens)
  | .lookup hash tokens => some (p.lookupReadyPrefixBlock hash tokens).2
  | .removeSeq seqId => some (p.removeSeq seqId)
  | .setPrefixCachingEnabled enabled => some (p.setPrefixCachingEnabled enabled)

def hostNext (p : BlockPool) : HostOp → Option BlockPool
  | .ensureBlocks seqId tokenIds tokens =>
    match p.ensureBlocks seqId tokenIds tokens false with
    | (.ok _, p) => some p
    | (.error _, _) => none
  | .storeReadyCacheBlock views tokens =>
    match p.storeReadyCacheBlock (computeBlockHash tokens (prefixHash views)) tokens with
    | (.ok _, p) => some p
    | (.error _, _) => none
  | .lookup hash tokens => some (p.lookupReadyPrefixBlock hash tokens).2
  | .removeSeq seqId => some (p.removeSeq seqId)
  | .setPrefixCachingEnabled enabled => some (p.setPrefixCachingEnabled enabled)

def hbmSystem : System BlockPool HbmOp where
  initial p := ∃ numBlocks blockSize, p = BlockPool.new numBlocks blockSize
  next := hbmNext

def hostSystem : System BlockPool HostOp where
  initial p := ∃ numBlocks blockSize, p = BlockPool.new numBlocks blockSize
  next := hostNext

omit [Xxh3] in
theorem sound_new (numBlocks blockSize : ℤ) : (BlockPool.new numBlocks blockSize).Sound [] where
  finite_tables := by simp [BlockPool.new]
  table_nodup _ := List.nodup_nil
  table_lt _ b hb := absurd hb (List.not_mem_nil)
  refCount_eq b := (familyCount_none b).symm
  free_nodup := List.nodup_range
  free_lt b hb := List.mem_range.1 hb
  free_refCount _ _ := rfl
  index_lt h b hb := by cases hb
  lru_nodup := List.nodup_nil

theorem hbm_new (numBlocks blockSize : ℤ) : (BlockPool.new numBlocks blockSize).Hbm [] where
  toSound := sound_new numBlocks blockSize
  free_of_refCount b hb _ := List.mem_range.2 hb
  ready_hashOf b hb := by cases hb

theorem host_new (numBlocks blockSize : ℤ) : (BlockPool.new numBlocks blockSize).Host [] where
  toSound := sound_new numBlocks blockSize
  ready_iff b hb := ⟨fun h => (by cases h), fun h => absurd (List.mem_range.2 hb) h.2⟩
  ready_index b _ hb := by cases hb
  ready_hashOf b _ hb := by cases hb
  index_ready h b hb := by cases hb
  lru_iff h := ⟨fun hmem => absurd hmem List.not_mem_nil, fun hne => absurd rfl hne⟩

theorem hbm_invariant (hash : HashInjective) : Invariant hbmSystem always (fun p => p.Hbm []) where
  initial := by
    rintro p ⟨numBlocks, blockSize, rfl⟩
    exact hbm_new numBlocks blockSize
  next := by
    intro p op p' hp _ hnext
    have hnext : p.hbmNext op = some p' := hnext
    cases op with
    | ensureBlocks seqId tokenIds tokens usePrefixCache =>
      rw [hbmNext] at hnext
      split at hnext
      case h_1 out p₁ h =>
        cases hnext
        exact hp.ensureBlocks hash seqId tokenIds tokens usePrefixCache h
      case h_2 => cases hnext
    -- the loop holds its blocks until they are in a table
    | reserve c flat seqId tokenIds blockSize neededBlocks hostEnabled =>
      rw [hbmNext] at hnext
      split at hnext
      case isTrue => cases hnext
      case isFalse hnew =>
        split at hnext
        case h_2 => cases hnext
        case h_1 blocks c₁ h =>
          cases hnext
          have hp' : ((c.setHbmPool flat p).hbmPools flat).Hbm [] := by simpa using hp
          obtain ⟨hinv, -, hn, htab, hnodup, hsource⟩ :=
            CacheState.reserveLoop_pools hash (fun _ => prefixHash_nil.symm) h hp'
          refine hinv.insertSeqBlocks ?_ hnodup ?_
          · unfold hasSeq at hnew ⊢
            rwa [htab, CacheState.setHbmPool_self]
          · intro b hb
            rw [hn]
            rcases hsource b hb with hfree | hhit
            · exact hp'.free_lt b hfree
            · exact hhit.2.1
    | commitReady seqId tokenIds committedTokens =>
      cases hnext
      exact hp.commitReady seqId tokenIds committedTokens
    | lookup h tokens =>
      cases hnext
      exact hp.lookup h tokens
    | removeSeq seqId =>
      cases hnext
      exact Hbm.kept.removeSeq hp seqId
    | setPrefixCachingEnabled enabled =>
      cases hnext
      exact ⟨hp.toSound.congr rfl (fun _ => rfl) rfl rfl hp.index_lt hp.lru_nodup,
        hp.free_of_refCount, hp.ready_hashOf⟩

theorem host_invariant (hash : HashInjective) : Invariant hostSystem always (fun p => p.Host []) where
  initial := by
    rintro p ⟨numBlocks, blockSize, rfl⟩
    exact host_new numBlocks blockSize
  next := by
    intro p op p' hp _ hnext
    have hnext : p.hostNext op = some p' := hnext
    cases op with
    | ensureBlocks seqId tokenIds tokens =>
      rw [hostNext] at hnext
      split at hnext
      case h_1 out p₁ h =>
        cases hnext
        exact hp.ensureBlocks seqId tokenIds tokens h
      case h_2 => cases hnext
    | storeReadyCacheBlock views tokens =>
      rw [hostNext] at hnext
      split at hnext
      case h_1 b p₁ h =>
        cases hnext
        exact hp.storeReadyCacheBlock hash ⟨views, rfl⟩ h
      case h_2 => cases hnext
    | lookup h tokens =>
      cases hnext
      exact hp.lookup h tokens
    | removeSeq seqId =>
      cases hnext
      exact Host.kept.removeSeq hp seqId
    | setPrefixCachingEnabled enabled =>
      cases hnext
      exact ⟨hp.toSound.congr rfl (fun _ => rfl) rfl rfl hp.index_lt hp.lru_nodup, hp.ready_iff, hp.ready_index,
        hp.ready_hashOf, hp.index_ready, hp.lru_iff⟩

/-- The structures of a pool say the same: references are occurrences in tables, and no list has a duplicate or an id
that is no block. -/
structure Represents (p : BlockPool) : Prop where
  finite_tables : {s | p.seqBlocks s ≠ none}.Finite
  refCount_eq : ∀ b, (p.blocks b).refCount = p.occurrences b
  table_nodup : ∀ seqId table, p.seqBlocks seqId = some table → table.Nodup
  free_nodup : p.freeBlocks.Nodup
  free_lt : ∀ b ∈ p.freeBlocks, b < p.numBlocks
  index_lt : ∀ h b, p.hashToBlockId h = some b → b < p.numBlocks
  lru_nodup : p.readyLru.Nodup

omit [Xxh3] in
theorem Sound.represents {p : BlockPool} (hp : p.Sound []) : p.Represents where
  finite_tables := hp.finite_tables
  refCount_eq b := by
    rw [hp.refCount_eq]
    rfl
  table_nodup seqId table h := by
    have hnodup := hp.table_nodup seqId
    unfold BlockPool.table at hnodup
    rwa [h] at hnodup
  free_nodup := hp.free_nodup
  free_lt := hp.free_lt
  index_lt := hp.index_lt
  lru_nodup := hp.lru_nodup

/-- **Representation invariant** of the block pools along every run of successful operations. -/
theorem pools_represent (hash : HashInjective) :
    (∀ p, Reachable hbmSystem always p → p.Represents ∧
      ∀ b < p.numBlocks, b ∈ p.freeBlocks ↔ (p.blocks b).refCount = 0) ∧
    ∀ p, Reachable hostSystem always p → p.Represents ∧
      ∀ b < p.numBlocks, (p.blocks b).refCount = 0 ∧ b ∉ p.freeBlocks ↔
        (p.blocks b).state = .ready ∧ p.hashToBlockId (p.blocks b).hash = some b ∧
          (p.blocks b).hash ∈ p.readyLru := by
  refine ⟨fun p hreach => ?_, fun p hreach => ?_⟩
  · have hp := (hbm_invariant hash).holds hreach
    exact ⟨hp.toSound.represents, fun b hb => ⟨hp.free_refCount b, hp.free_of_refCount b hb⟩⟩
  · have hp := (host_invariant hash).holds hreach
    refine ⟨hp.toSound.represents, fun b hb => ?_⟩
    rw [← hp.ready_iff b hb]
    refine ⟨fun hready => ?_, fun h => h.1⟩
    have hindex := hp.ready_index b hb hready
    exact ⟨hready, hindex, (hp.lru_iff _).2 (by rw [hindex]; simp)⟩

end runs

section witness

attribute [local instance] codeHash

/-- The running hashes of `codeHash` are `-1` or positive, so its seeds differ. -/
theorem prefixHash_codeHash (views : List (List ℤ)) : prefixHash views = -1 ∨ 0 < prefixHash views := by
  rcases List.eq_nil_or_concat views with rfl | ⟨views, view, rfl⟩
  · exact .inl rfl
  · right
    rw [List.concat_eq_append, prefixHash_append]
    unfold computeBlockHash Xxh3.digest
    dsimp only [codeHash]
    omega

theorem hashInjective_codeHash : HashInjective where
  ne_neg_one tokens h := by
    unfold computeBlockHash Xxh3.digest
    dsimp only [codeHash]
    omega
  inj := by
    intro tokens tokens' views views' h
    have hcode : (Encodable.encode (if prefixHash views = -1 then 0 else prefixHash views, tokens) : ℤ) + 1 =
        (Encodable.encode (if prefixHash views' = -1 then 0 else prefixHash views', tokens') : ℤ) + 1 := h
    have hpair := Encodable.encode_injective (Int.ofNat_inj.1 (add_right_cancel hcode))
    obtain ⟨hseed, htokens⟩ := Prod.mk.inj hpair
    refine ⟨htokens, ?_⟩
    have h₁ := prefixHash_codeHash views
    have h₂ := prefixHash_codeHash views'
    split at hseed <;> split at hseed <;> omega

/-- Two sequences share the block of a committed prefix; an evicted prefix is stored on the host. -/
theorem pools_represent_shared :
    (∃ p, Reachable hbmSystem always p ∧ p.Represents ∧ (p.blocks 0).refCount = 2) ∧
    ∃ p, Reachable hostSystem always p ∧ p.Represents ∧ (p.blocks 1).state = .ready := by
  have hinv := pools_represent hashInjective_codeHash
  constructor
  · obtain ⟨p, hreach, hp⟩ := Reachable.exists_of_run (T := hbmSystem) (G := always)
      (P := fun p : BlockPool => decide ((p.blocks 0).refCount = 2)) (s := BlockPool.new 4 2)
      [.ensureBlocks 1 [5, 6, 7] 3 true, .commitReady 1 [5, 6, 7] 3, .ensureBlocks 2 [5, 6, 8] 3 true]
      ⟨4, 2, rfl⟩ (by decide +kernel)
    exact ⟨p, hreach, (hinv.1 p hreach).1, of_decide_eq_true hp⟩
  · obtain ⟨p, hreach, hp⟩ := Reachable.exists_of_run (T := hostSystem) (G := always)
      (P := fun p : BlockPool => decide ((p.blocks 1).state = .ready)) (s := BlockPool.new 2 2)
      [.ensureBlocks 1 [] 2, .storeReadyCacheBlock [] [5, 6], .removeSeq 1] ⟨2, 2, rfl⟩ (by decide +kernel)
    exact ⟨p, hreach, (hinv.2 p hreach).1, of_decide_eq_true hp⟩

end witness

end BlockPool

end NanoEngine
