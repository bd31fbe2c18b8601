import NanoEngine.Failures.HostRoom

/-!
# NanoEngine.Failures.Admission — what a failed admission gives back

A reservation takes its blocks one at a time.  When it fails, the assignment and the tables of the sequence are undone,
and a sequence of the rank may be preempted; the blocks that were taken are not released.

* `TakenSome`: a block has more references than before.
* `SameTiers`: the pools are as they were, up to the order of their queues.
* `TakesNothing`: there is no block to take for the sequence.
* `leaksNothing_iff`: exactly then a failed try keeps all pools as they were, its preemption apart.
-/

namespace NanoEngine

open BlockPool CacheState

/-! ## Taking blocks -/

namespace BlockPool

variable {p q q' : BlockPool} {seqId b n : ℕ}

/-- Blocks have been taken from `p`, or none. -/
structure Taken (p q : BlockPool) : Prop where
  refCount_le : ∀ b, (p.blocks b).refCount ≤ (q.blocks b).refCount
  free_subset : q.freeBlocks ⊆ p.freeBlocks

structure TakenSome (p q : BlockPool) : Prop extends Taken p q where
  more : ∃ b, (p.blocks b).refCount < (q.blocks b).refCount

theorem Taken.refl (p : BlockPool) : Taken p p := ⟨fun _ => le_rfl, fun _ h => h⟩

theorem Taken.congr (h : Taken p q) (hblocks : q'.blocks = q.blocks) (hfree : q'.freeBlocks = q.freeBlocks) :
    Taken p q' :=
  ⟨fun b => hblocks ▸ h.refCount_le b, hfree ▸ h.free_subset⟩

theorem TakenSome.congr (h : TakenSome p q) (hblocks : q'.blocks = q.blocks) (hfree : q'.freeBlocks = q.freeBlocks) :
    TakenSome p q' :=
  ⟨h.toTaken.congr hblocks hfree, hblocks ▸ h.more⟩

theorem SameBlocks.takenSome (hq : SameBlocks q q') (h : TakenSome p q) :
    TakenSome p q' := h.congr hq.blocks hq.freeBlocks

theorem SameBlocks.taken (hq : SameBlocks q q') (h : Taken p q) : Taken p q' := h.congr hq.blocks hq.freeBlocks

theorem Taken.retain (h : Taken p q) (hq : q.retainBlock b = (.ok (), q')) : TakenSome p q' := by
  obtain ⟨-, rfl⟩ := retainBlock_ok hq
  have hle := h.refCount_le b
  refine ⟨⟨fun c => ?_, fun c hc => h.free_subset (List.mem_of_mem_filter hc)⟩, b, ?_⟩
  · by_cases hc : c = b
    · subst hc
      simp only [setBlock, Function.update_self]
      omega
    · simp only [setBlock, Function.update_of_ne hc]
      exact h.refCount_le c
  · simp only [setBlock, Function.update_self]
    omega

section Free

variable (hfree : ∀ b ∈ p.freeBlocks, (p.blocks b).refCount = 0)

include hfree

/-- A block from the free list had no reference. -/
theorem Taken.fresh (h : Taken p q) (hq : Fresh q b q') : TakenSome p q' := by
  have hzero : (p.blocks b).refCount = 0 := hfree b (h.free_subset (hq.freeBlocks ▸ List.mem_cons_self))
  refine ⟨⟨fun c => ?_, fun c hc => h.free_subset (hq.freeBlocks ▸ List.mem_cons_of_mem b hc)⟩, b, ?_⟩
  · by_cases hc : c = b
    · rw [hc, hzero]
      exact Nat.zero_le _
    · rw [hq.blocks c hc]
      exact h.refCount_le c
  · rw [hzero, hq.refCount]
    exact Nat.one_pos

theorem Taken.growLoop (h : Taken p q) (hsome : TakenSome p q ∨ 0 < n ∧ q.freeBlocks ≠ []) :
    TakenSome p (growLoop seqId n q).2 := by
  induction n generalizing q with
  | zero => exact hsome.resolve_right fun hn => absurd hn.1 (Nat.lt_irrefl 0)
  | succ n ih =>
    rw [BlockPool.growLoop]
    split
    case h_1 e q₁ heq =>
      have hsame : q = q₁ := allocateFreshWithEviction_error heq
      refine hsame ▸ hsome.resolve_right fun hn => ?_
      obtain ⟨b, free, hcons⟩ := List.exists_cons_of_ne_nil hn.2
      obtain ⟨evicted, q₂, hok, -⟩ := allocateFreshWithEviction_cons hcons
      rw [hok] at heq
      cases heq
    case h_2 b evicted q₁ heq =>
      have htaken : TakenSome p q₁ := h.fresh hfree (allocateFreshWithEviction_fresh heq).1
      exact ih (htaken.toTaken.congr rfl rfl) (Or.inl (htaken.congr rfl rfl))

end Free

/-! ### `ensure_blocks` without the prefix cache -/

/-- No block is there to take: the table is long enough or nothing is free; a new table needs all its blocks at once. -/
def NothingFor (p : BlockPool) (seqId : ℕ) (tokens : ℤ) : Prop :=
  if p.hasSeq seqId then p.numBlocksForTokens tokens ≤ (p.table seqId).length ∨ p.freeBlocks = []
  else p.freeBlocks.length < p.numBlocksForTokens tokens

theorem growExisting_snd (p : BlockPool) (seqId needed : ℕ) :
    (p.growExisting seqId needed).2 = (growLoop seqId (needed - (p.table seqId).length) p).2 := by
  unfold growExisting table
  split <;> rename_i heq <;> rw [heq]

variable [Xxh3]

theorem ensureBlocks_nothing {tokens : ℤ} (tokenIds : List ℤ) {usePrefixCache : Bool}
    (hplan : p.hasSeq seqId = true ∨ usePrefixCache = false) (h : p.NothingFor seqId tokens) :
    (p.ensureBlocks seqId tokenIds tokens usePrefixCache).2 = p := by
  unfold NothingFor at h
  unfold ensureBlocks
  dsimp only
  split
  case isTrue hseq =>
    rw [if_pos hseq] at h
    rw [growExisting_snd]
    rcases h with hlen | hnil
    · rw [Nat.sub_eq_zero_of_le hlen]
      rfl
    · cases p.numBlocksForTokens tokens - (p.table seqId).length with
      | zero => rfl
      | succ n => rw [growLoop, allocateFreshWithEviction_nil hnil]
  case isFalse hseq =>
    obtain rfl := hplan.resolve_left hseq
    have hmiss : p.planNewBlocks tokenIds (p.numBlocksForTokens tokens) false =
        List.replicate (p.numBlocksForTokens tokens) none := planLoop_miss p tokenIds _ 0 (-1)
    rw [if_neg hseq] at h
    rw [hmiss, if_pos (by simpa using h)]

/-- Otherwise a block is taken, or the new table is there. -/
theorem ensureBlocks_something {tokens : ℤ} (tokenIds : List ℤ) {usePrefixCache : Bool}
    (hfree : ∀ b ∈ p.freeBlocks, (p.blocks b).refCount = 0)
    (hplan : p.hasSeq seqId = true ∨ usePrefixCache = false) (h : ¬ p.NothingFor seqId tokens) :
    TakenSome p (p.ensureBlocks seqId tokenIds tokens usePrefixCache).2 ∨
      ((p.ensureBlocks seqId tokenIds tokens usePrefixCache).2.hasSeq seqId = true ∧ p.hasSeq seqId = false) := by
  unfold NothingFor at h
  by_cases hseq : p.hasSeq seqId = true
  · rw [if_pos hseq] at h
    push Not at h
    left
    unfold ensureBlocks
    dsimp only
    rw [if_pos hseq, growExisting_snd]
    exact (Taken.refl p).growLoop hfree (Or.inr ⟨by omega, h.2⟩)
  · obtain rfl := hplan.resolve_left hseq
    have hmiss : p.planNewBlocks tokenIds (p.numBlocksForTokens tokens) false =
        List.replicate (p.numBlocksForTokens tokens) none := planLoop_miss p tokenIds _ 0 (-1)
    rw [if_neg hseq, Nat.not_lt] at h
    right
    refine ⟨?_, by simpa using hseq⟩
    obtain ⟨p', htake⟩ := takePlan_fresh_ok h
    unfold ensureBlocks
    dsimp only
    rw [if_neg hseq, hmiss, if_neg (by simpa using h), htake]
    simp [hasSeq]

end BlockPool

/-! ## The tiers -/

namespace CacheState

/-- The pools of all tiers differ in the order of their queues only, and no swap-in is queued. -/
structure SameTiers (c c' : CacheState) : Prop where
  hbm : ∀ f, SameBlocks (c.hbmPools f) (c'.hbmPools f)
  host : ∀ f, SameBlocks (c.hostPools f) (c'.hostPools f)
  blockSize : ∀ f, (c'.hbmPools f).blockSize = (c.hbmPools f).blockSize
  swapIns : c'.pendingSwapInTasks = c.pendingSwapInTasks

variable {c c' c'' : CacheState} {flat seqId : ℕ}

theorem setHbmPool_of_ne (c : CacheState) (p : BlockPool) {f : ℕ} (hf : f ≠ flat) :
    (c.setHbmPool flat p).hbmPools f = c.hbmPools f :=
  Function.update_of_ne hf _ _

theorem setHostPool_of_ne (c : CacheState) (p : BlockPool) {f : ℕ} (hf : f ≠ flat) :
    (c.setHostPool flat p).hostPools f = c.hostPools f :=
  Function.update_of_ne hf _ _

namespace SameTiers

theorem refl (c : CacheState) : SameTiers c c := ⟨fun _ => .refl _, fun _ => .refl _, fun _ => rfl, rfl⟩

theorem trans (h : SameTiers c c') (k : SameTiers c' c'') : SameTiers c c'' :=
  ⟨fun f => (h.hbm f).trans (k.hbm f), fun f => (h.host f).trans (k.host f), fun f =>
    (k.blockSize f).trans (h.blockSize f),
    k.swapIns.trans h.swapIns⟩

theorem of_eq (hhbm : c'.hbmPools = c.hbmPools) (hhost : c'.hostPools = c.hostPools)
    (hswapIns : c'.pendingSwapInTasks = c.pendingSwapInTasks) : SameTiers c c' :=
  ⟨fun f => hhbm ▸ .refl _, fun f => hhost ▸ .refl _, fun f => by rw [hhbm], hswapIns⟩

theorem lookupHbm (c : CacheState) (flat : ℕ) (h : ℤ) (view : List ℤ) :
    SameTiers c (c.setHbmPool flat ((c.hbmPools flat).lookupReadyPrefixBlock h view).2) := by
  have hpool : ∀ f, SameBlocks (c.hbmPools f)
      ((c.setHbmPool flat ((c.hbmPools flat).lookupReadyPrefixBlock h view).2).hbmPools f) ∧
      ((c.setHbmPool flat ((c.hbmPools flat).lookupReadyPrefixBlock h view).2).hbmPools f).blockSize =
        (c.hbmPools f).blockSize := by
    intro f
    by_cases hf : f = flat
    · subst hf
      rw [setHbmPool_self]
      refine ⟨lookupReadyPrefixBlock_same _ h view, ?_⟩
      unfold lookupReadyPrefixBlock
      split
      · rfl
      · exact touchReadyHash_blockSize _ h
    · rw [setHbmPool_of_ne c _ hf]
      exact ⟨.refl _, rfl⟩
  exact ⟨fun f => (hpool f).1, fun _ => .refl _, fun f => (hpool f).2, rfl⟩

theorem lookupHost (c : CacheState) (flat : ℕ) (h : ℤ) (view : List ℤ) :
    SameTiers c (c.setHostPool flat ((c.hostPools flat).lookupReadyPrefixBlock h view).2) := by
  refine ⟨fun _ => .refl _, fun f => ?_, fun _ => rfl, rfl⟩
  by_cases hf : f = flat
  · subst hf
    rw [setHostPool_self]
    exact lookupReadyPrefixBlock_same _ h view
  · rw [setHostPool_of_ne c _ hf]
    exact .refl _

theorem matchedLoop [Xxh3] (flat : ℕ) (tokenIds : List ℤ) (blockSize n blockIdx : ℕ) (h : ℤ) (c : CacheState) :
    SameTiers c (CacheState.matchedLoop flat tokenIds blockSize n blockIdx h c).2 := by
  induction n generalizing blockIdx h c with
  | zero => exact .refl c
  | succ n ih =>
    rw [CacheState.matchedLoop]
    dsimp only
    split
    case isTrue => exact .refl c
    case isFalse =>
      generalize computeBlockHash (blockView blockSize tokenIds blockIdx) h = k
      have hhbm := lookupHbm c flat k (blockView blockSize tokenIds blockIdx)
      split
      case isTrue => exact hhbm.trans (ih _ _ _)
      case isFalse =>
        have hhost := hhbm.trans (lookupHost _ flat k (blockView blockSize tokenIds blockIdx))
        split
        case isTrue => exact hhost.trans (ih _ _ _)
        case isFalse => exact hhost

end SameTiers

/-! ### One iteration -/

section Step

variable {p : BlockPool} {hostEnabled : Bool} {h : ℤ} {view : List ℤ} {lookup : Bool}

theorem reserveFresh_nothing (hnil : (c.hbmPools flat).freeBlocks = []) :
    c.reserveFresh flat hostEnabled = (.error .outOfKvCacheBlocks, c) := by
  unfold reserveFresh
  rw [allocateFreshWithEviction_nil hnil]
  dsimp only
  rw [setHbmPool_same]

theorem reservePromoted_nothing (hnil : (c.hbmPools flat).freeBlocks = []) (hostBlock : ℕ) :
    c.reservePromoted flat seqId h view hostBlock hostEnabled = (.error .outOfKvCacheBlocks, c) := by
  unfold reservePromoted allocatePromotedReady
  rw [allocateFreshWithEviction_nil hnil]
  dsimp only
  rw [setHbmPool_same]

/-- Without a free block and without a hit in HBM the iteration fails and changes nothing. -/
theorem reserveStep_nothing (hnil : (c.hbmPools flat).freeBlocks = [])
    (hmiss : lookup = true → (c.hbmPools flat).lookupReadyBlock h view = none) :
    (∃ e, (c.reserveStep flat seqId h view lookup hostEnabled).1 = .error e) ∧
      SameTiers c (c.reserveStep flat seqId h view lookup hostEnabled).2.2 := by
  unfold reserveStep
  split
  case isFalse =>
    dsimp only
    rw [reserveFresh_nothing hnil]
    exact ⟨⟨_, rfl⟩, .refl c⟩
  case isTrue hlookup =>
    have hnone := hmiss hlookup
    have hhost := SameTiers.lookupHost c flat h view
    dsimp only
    split
    case h_1 b hhit =>
      rw [lookupReadyPrefixBlock_fst, hnone] at hhit
      cases hhit
    case h_2 =>
      rw [lookupReadyPrefixBlock_miss hnone, setHbmPool_same]
      have hstill : ((c.setHostPool flat ((c.hostPools flat).lookupReadyPrefixBlock h view).2).hbmPools
          flat).freeBlocks = [] := hnil
      split
      case h_1 hostBlock _ =>
        rw [reservePromoted_nothing hstill]
        exact ⟨⟨_, rfl⟩, hhost⟩
      case h_2 =>
        rw [reserveFresh_nothing hstill]
        exact ⟨⟨_, rfl⟩, hhost⟩

variable (hfree : ∀ b ∈ p.freeBlocks, (p.blocks b).refCount = 0)

include hfree

theorem reserveFresh_something (hp : Taken p (c.hbmPools flat)) (hne : (c.hbmPools flat).freeBlocks ≠ []) :
    TakenSome p ((c.reserveFresh flat hostEnabled).2.hbmPools flat) := by
  obtain ⟨b, free, hcons⟩ := List.exists_cons_of_ne_nil hne
  obtain ⟨evicted, q, halloc, -⟩ := allocateFreshWithEviction_cons hcons
  have htaken : TakenSome p q := hp.fresh hfree (allocateFreshWithEviction_fresh halloc).1
  have hpools := writeBackEvictedPrefix_hbmPools (c.setHbmPool flat q) flat evicted hostEnabled
  unfold reserveFresh
  rw [halloc]
  dsimp only
  split <;> rename_i heq <;> rw [heq] at hpools <;> rw [hpools, setHbmPool_self] <;> exact htaken

theorem reservePromoted_something (hp : Taken p (c.hbmPools flat))
    (hne : (c.hbmPools flat).freeBlocks ≠ []) (hostBlock : ℕ) :
    TakenSome p ((c.reservePromoted flat seqId h view hostBlock hostEnabled).2.hbmPools flat) := by
  obtain ⟨b, free, hcons⟩ := List.exists_cons_of_ne_nil hne
  obtain ⟨evicted, q, halloc, -⟩ := allocateFreshWithEviction_cons hcons
  unfold reservePromoted
  split
  case h_1 e q₁ heq =>
    unfold allocatePromotedReady at heq
    rw [halloc] at heq
    cases heq
  case h_2 b₁ evicted₁ q₁ heq =>
    have htaken : TakenSome p q₁ := hp.fresh hfree (allocatePromotedReady_fresh heq).1
    have hpools := writeBackEvictedPrefix_hbmPools (c.setHbmPool flat q₁) flat evicted₁ hostEnabled
    split <;> rename_i hback <;> rw [hback] at hpools
    · rw [hpools, setHbmPool_self]
      exact htaken
    · rw [pushPendingSwapIn_hbmPools, hpools, setHbmPool_self]
      exact htaken

/-- Otherwise it takes a block, also when the write-back fails. -/
theorem reserveStep_something (hp : Taken p (c.hbmPools flat)) (hsome : (c.hbmPools flat).freeBlocks ≠ [] ∨
      lookup = true ∧ (c.hbmPools flat).lookupReadyBlock h view ≠ none) :
    TakenSome p ((c.reserveStep flat seqId h view lookup hostEnabled).2.2.hbmPools flat) := by
  unfold reserveStep
  split
  case isFalse hlookup => exact reserveFresh_something hfree hp (hsome.resolve_right fun hhit => hlookup hhit.1)
  case isTrue hlookup =>
    dsimp only
    split
    case h_1 b hhit =>
      rw [lookupReadyPrefixBlock_fst] at hhit
      have hsame := (c.hbmPools flat).lookupReadyPrefixBlock_same h view
      have hlt := (lookupReadyBlock_some hhit).1
      rw [← hsame.numBlocks] at hlt
      unfold reserveRetained
      rw [setHbmPool_self]
      split
      case h_1 e q heq =>
        unfold retainBlock at heq
        rw [if_pos hlt] at heq
        cases heq
      case h_2 q heq =>
        rw [setHbmPool_self]
        exact (hsame.taken hp).retain heq
    case h_2 hmiss =>
      rw [lookupReadyPrefixBlock_fst] at hmiss
      have hne := hsome.resolve_right fun hhit => hhit.2 hmiss
      rw [lookupReadyPrefixBlock_miss hmiss, setHbmPool_same]
      have hpools : (c.setHostPool flat ((c.hostPools flat).lookupReadyPrefixBlock h view).2).hbmPools =
        c.hbmPools := rfl
      rw [← hpools] at hp hne
      split
      case h_1 hostBlock _ => exact reservePromoted_something hfree hp hne hostBlock
      case h_2 => exact reserveFresh_something hfree hp hne

theorem reserveStep_takenSome (hp : TakenSome p (c.hbmPools flat)) :
    TakenSome p ((c.reserveStep flat seqId h view lookup hostEnabled).2.2.hbmPools flat) := by
  by_cases hsome : (c.hbmPools flat).freeBlocks ≠ [] ∨
    lookup = true ∧ (c.hbmPools flat).lookupReadyBlock h view ≠ none
  · exact reserveStep_something hfree hp.toTaken hsome
  · push Not at hsome
    exact ((reserveStep_nothing hsome.1 hsome.2).2.hbm flat).takenSome hp

end Step

/-! ### The loop -/

section Loop

variable [Xxh3] {p : BlockPool} {hostEnabled : Bool} {tokenIds : List ℤ} {blockSize n blockIdx : ℕ}
  {h : ℤ} {cacheMiss : Bool}

theorem reserveLoop_takenSome (hfree : ∀ b ∈ p.freeBlocks, (p.blocks b).refCount = 0)
    (hp : TakenSome p (c.hbmPools flat)) :
    TakenSome p ((reserveLoop flat seqId tokenIds blockSize hostEnabled n blockIdx h cacheMiss c).2.hbmPools flat) := by
  induction n generalizing c blockIdx h cacheMiss with
  | zero => exact hp
  | succ n ih =>
    rw [reserveLoop]
    generalize hstep : c.reserveStep flat seqId _ _ _ hostEnabled = r
    obtain ⟨r, miss, c₁⟩ := r
    have hnext : TakenSome p (c₁.hbmPools flat) := by
      have h := @reserveStep_takenSome c flat seqId p hostEnabled
        (if (decide ((blockView blockSize tokenIds blockIdx).length = blockSize) && !cacheMiss) = true then
          computeBlockHash (blockView blockSize tokenIds blockIdx) h else h)
        (blockView blockSize tokenIds blockIdx)
        (decide ((blockView blockSize tokenIds blockIdx).length = blockSize) && !cacheMiss) hfree hp
      rw [hstep] at h
      exact h
    cases r with
    | error e => exact hnext
    | ok b =>
      have hrest := @ih c₁ (blockIdx + 1) (if (decide ((blockView blockSize tokenIds blockIdx).length = blockSize) &&
        !cacheMiss) = true then computeBlockHash (blockView blockSize tokenIds blockIdx) h else h) miss hnext
      dsimp only
      split <;> rename_i heq <;> rw [heq] at hrest <;> exact hrest

/-- The first iteration decides whether the loop takes anything. -/
theorem reserveLoop_nothing (hnil : (c.hbmPools flat).freeBlocks = [])
    (hmiss : (c.hbmPools flat).readyPrefix blockSize tokenIds (n + 1) blockIdx h = []) :
    (∃ e, (reserveLoop flat seqId tokenIds blockSize hostEnabled (n + 1) blockIdx h false c).1 = .error e) ∧
      SameTiers c (reserveLoop flat seqId tokenIds blockSize hostEnabled (n + 1) blockIdx h false c).2 := by
  rw [reserveLoop]
  generalize hview : blockView blockSize tokenIds blockIdx = view
  have hnone : (decide (view.length = blockSize) && !false) = true → (c.hbmPools flat).lookupReadyBlock
      (if (decide (view.length = blockSize) && !false) = true then computeBlockHash view h else h) view = none := by
    intro hlookup
    rw [if_pos hlookup]
    rw [Bool.not_false, Bool.and_true, decide_eq_true_eq, ← hview] at hlookup
    by_contra hne
    obtain ⟨b, hb⟩ := Option.ne_none_iff_exists'.1 hne
    rw [← hview] at hb
    rw [readyPrefix_hit n hlookup hb] at hmiss
    cases hmiss
  have hstep := @reserveStep_nothing c flat seqId hostEnabled _ view _ hnil hnone
  obtain ⟨⟨e, he⟩, hsame⟩ := hstep
  split
  case h_1 e' miss c' heq =>
    rw [heq] at hsame
    exact ⟨⟨e', rfl⟩, hsame⟩
  case h_2 b miss c' heq =>
    rw [heq] at he
    cases he

theorem reserveLoop_something
    (hfree : ∀ b ∈ (c.hbmPools flat).freeBlocks, ((c.hbmPools flat).blocks b).refCount = 0)
    (hsome : (c.hbmPools flat).freeBlocks ≠ [] ∨
      (c.hbmPools flat).readyPrefix blockSize tokenIds (n + 1) blockIdx h ≠ []) :
    TakenSome (c.hbmPools flat)
      ((reserveLoop flat seqId tokenIds blockSize hostEnabled (n + 1) blockIdx h false c).2.hbmPools flat) := by
  rw [reserveLoop]
  generalize hview : blockView blockSize tokenIds blockIdx = view
  have hfirst : (c.hbmPools flat).freeBlocks ≠ [] ∨ (decide (view.length = blockSize) && !false) = true ∧
      (c.hbmPools flat).lookupReadyBlock
        (if (decide (view.length = blockSize) && !false) = true then computeBlockHash view h else h) view ≠ none := by
    refine hsome.imp_right fun hne => ?_
    by_contra hnot
    refine hne (readyPrefix_miss n fun hlen => ?_)
    rw [hview] at hlen ⊢
    by_contra hhit
    have hlookup : (decide (view.length = blockSize) && !false) = true := by simp [hlen]
    exact hnot ⟨hlookup, by rwa [if_pos hlookup]⟩
  have hstep := @reserveStep_something c flat seqId _ hostEnabled _ view _ hfree (Taken.refl _) hfirst
  split
  case h_1 e' miss c' heq =>
    rw [heq] at hstep
    exact hstep
  case h_2 b miss c' heq =>
    rw [heq] at hstep
    have hrest := @reserveLoop_takenSome c' flat seqId _ _ hostEnabled tokenIds blockSize n (blockIdx + 1)
      (if (decide (view.length = blockSize) && !false) = true then computeBlockHash view h else h) miss hfree hstep
    split <;> rename_i heq <;> rw [heq] at hrest <;> exact hrest

end Loop

end CacheState

/-! ## One try -/

namespace BlockPool

/-- A block of the pool has more references, or the sequence has an entry that it had not. -/
def Gains (p q : BlockPool) (seqId : ℕ) : Prop :=
  (∃ b, (p.blocks b).refCount < (q.blocks b).refCount) ∨ (q.hasSeq seqId = true ∧ p.hasSeq seqId = false)

theorem SameBlocks.nothingFor {p p' : BlockPool} (h : SameBlocks p p')
    (hsize : p'.blockSize = p.blockSize) (seqId : ℕ)
    (tokens : ℤ) : p'.NothingFor seqId tokens ↔ p.NothingFor seqId tokens := by
  unfold NothingFor hasSeq table numBlocksForTokens
  rw [h.seqBlocks, h.freeBlocks, hsize]

end BlockPool

namespace Scheduler

variable [Xxh3] {s s' s₁ s₂ : Scheduler} {seqId dpIdx : ℕ} {a : Admission} {batchSeqs batchTokens : ℕ → ℤ}

/-- No block is there to take for an admission of `fullLen` tokens. -/
def TakesNothing (s : Scheduler) (seqId dpIdx : ℕ) (fullLen : ℤ) : Prop :=
  0 < fullLen →
    if s.asksHost seqId dpIdx then
      (s.cache.hbmPools (s.flatIdx dpIdx 0)).freeBlocks = [] ∧ s.retainedBlocks seqId dpIdx fullLen = []
    else (s.cache.hbmPools (s.flatIdx dpIdx 0)).NothingFor seqId (fullLen + max s.config.numSpeculativeTokens 0)

theorem TakesNothing.congr (hconfig : s'.config = s.config) (hcache : SameTiers s.cache s'.cache)
    (henabled : s'.cache.prefixCachingEnabled = s.cache.prefixCachingEnabled)
    (htokens : (s'.seqTable seqId).map (·.tokenIds) = (s.seqTable seqId).map (·.tokenIds)) (fullLen : ℤ) :
    s'.TakesNothing seqId dpIdx fullLen ↔ s.TakesNothing seqId dpIdx fullLen := by
  have hflat : s'.flatIdx dpIdx 0 = s.flatIdx dpIdx 0 := by
    unfold flatIdx Scheduler.group
    rw [hconfig]
  have hpool := hcache.hbm (s.flatIdx dpIdx 0)
  have hasks : s'.asksHost seqId dpIdx = s.asksHost seqId dpIdx := by
    unfold asksHost asksPrefixCache BlockPool.hasSeq Scheduler.group
    rw [hflat, hconfig, henabled, hpool.seqBlocks]
  have hretained : s'.retainedBlocks seqId dpIdx fullLen = s.retainedBlocks seqId dpIdx fullLen := by
    unfold retainedBlocks admissionBlocks blocksNeededForTokens
    rw [hflat, hconfig, htokens, hpool.readyPrefix]
  unfold TakesNothing
  rw [hasks, hflat, hconfig, hretained, hpool.freeBlocks, hpool.nothingFor (hcache.blockSize _)]

omit [Xxh3] in
theorem admissionBlocks_pos (s : Scheduler) (fullLen : ℤ) : 0 < s.admissionBlocks fullLen := by
  have hsize : (1 : ℤ) ≤ s.config.blockSize := by exact_mod_cast s.config.one_le_blockSize
  unfold admissionBlocks blocksNeededForTokens
  have hblocks : 1 ≤ (max (fullLen + max s.config.numSpeculativeTokens 0) 1 + s.config.blockSize - 1) /
    (s.config.blockSize : ℤ) := by
    rw [Int.le_ediv_iff_mul_le (by omega)]
    omega
  omega

/-! ### The blocks of one group -/

omit [Xxh3] in
theorem cacheAttachBlocks_cache (s : Scheduler) (seqId dpIdx groupId : ℕ) (blocks : List ℕ) (setMigrate : Bool) :
    (s.cacheAttachBlocks seqId dpIdx groupId blocks setMigrate).cache = s.cache := by
  unfold cacheAttachBlocks
  dsimp only
  split <;> rfl

theorem cacheEnsureGroupBlocks_ask {tokens : ℤ} (hasks : s.asksHost seqId dpIdx = true) :
    s.cacheEnsureGroupBlocks seqId dpIdx 0 tokens (decide (s.config.mode ≠ .decode)) =
      s.cacheEnsureGroupBlocksWithHostPrefix seqId dpIdx 0 (tokens + max s.config.numSpeculativeTokens 0) true := by
  unfold asksHost asksPrefixCache at hasks
  simp only [Bool.and_eq_true, decide_eq_true_eq] at hasks
  obtain ⟨⟨⟨hmode, hgroup⟩, henabled⟩, hnew⟩ := hasks
  unfold cacheEnsureGroupBlocks
  simp only [hmode, hgroup, henabled, hnew, ne_eq, not_false_eq_true, decide_true, decide_false, Bool.and_true,
    Bool.or_false, if_true]

/-- Without the host prefix cache the pool of the group decides. -/
theorem cacheEnsureGroupBlocks_cache (tokens : ℤ) (hasks : s.asksHost seqId dpIdx = false) :
    ∃ tokenIds usePrefixCache,
      ((s.cache.hbmPools (s.flatIdx dpIdx 0)).hasSeq seqId = true ∨ usePrefixCache = false) ∧
      (s.cacheEnsureGroupBlocks seqId dpIdx 0 tokens (decide (s.config.mode ≠ .decode))).2.cache =
        (s.cache.ensureHbmBlocks (s.flatIdx dpIdx 0) seqId tokenIds (tokens + max s.config.numSpeculativeTokens 0)
          usePrefixCache).2 := by
  have hlookahead : ((decide (s.config.mode ≠ .decode) && decide (s.config.mode ≠ .decode)) ||
      decide (s.config.mode = .decode)) = true := by
    by_cases hmode : s.config.mode = .decode <;> simp [hmode]
  have huse : (decide (s.config.mode ≠ .decode) && decide (s.group = 1) && decide (s.config.mode ≠ .decode)
      && s.cache.prefixCachingEnabled) = s.asksPrefixCache := by
    unfold asksPrefixCache
    by_cases hmode : s.config.mode = .decode <;> simp [hmode]
  unfold asksHost at hasks
  unfold cacheEnsureGroupBlocks
  dsimp only
  rw [hlookahead, huse, if_pos rfl, hasks, if_neg Bool.false_ne_true]
  refine ⟨if s.asksPrefixCache then ((s.seqTable seqId).map (·.tokenIds)).getD [] else [],
    s.asksPrefixCache, ?_, ?_⟩
  · cases hask : s.asksPrefixCache with
    | false => exact Or.inr rfl
    | true =>
      rw [hask, Bool.true_and, Bool.not_eq_false'] at hasks
      exact Or.inl hasks
  · split <;> rename_i heq <;> rw [heq]
    · rfl
    · exact cacheAttachBlocks_cache _ _ _ _ _ _

theorem cacheEnsureGroupBlocks_nothing {tokens : ℤ} (hpos : 0 < tokens) (h : s.TakesNothing seqId dpIdx tokens) :
    SameTiers s.cache (s.cacheEnsureGroupBlocks seqId dpIdx 0 tokens (decide (s.config.mode ≠ .decode))).2.cache := by
  have h := h hpos
  cases hasks : s.asksHost seqId dpIdx with
  | true =>
    rw [hasks, if_pos rfl] at h
    obtain ⟨hnil, hretained⟩ := h
    obtain ⟨n, hn⟩ := Nat.exists_eq_add_of_lt (s.admissionBlocks_pos tokens)
    rw [Nat.zero_add] at hn
    unfold retainedBlocks at hretained
    rw [hn] at hretained
    obtain ⟨⟨e, he⟩, hsame⟩ := @reserveLoop_nothing s.cache (s.flatIdx dpIdx 0) seqId _ s.hostEnabled
      _ _ n 0 (-1) hnil hretained
    rw [cacheEnsureGroupBlocks_ask hasks]
    unfold cacheEnsureGroupBlocksWithHostPrefix
    dsimp only
    rw [show s.blocksNeededForTokens (tokens + max s.config.numSpeculativeTokens 0) = n + 1 from hn]
    split
    case h_1 e' c heq =>
      rw [heq] at hsame
      exact hsame
    case h_2 blocks c heq =>
      rw [heq] at he
      cases he
  | false =>
    rw [hasks, if_neg Bool.false_ne_true] at h
    obtain ⟨tokenIds, usePrefixCache, hplan, hcache⟩ := cacheEnsureGroupBlocks_cache tokens hasks
    rw [hcache]
    unfold CacheState.ensureHbmBlocks
    dsimp only
    rw [ensureBlocks_nothing tokenIds hplan h, setHbmPool_same]
    exact .refl _

theorem cacheEnsureGroupBlocks_something {tokens : ℤ}
    (hfree : ∀ b ∈ (s.cache.hbmPools (s.flatIdx dpIdx 0)).freeBlocks,
      ((s.cache.hbmPools (s.flatIdx dpIdx 0)).blocks b).refCount = 0)
    (h : ¬ s.TakesNothing seqId dpIdx tokens) :
    (s.cache.hbmPools (s.flatIdx dpIdx 0)).Gains
      ((s.cacheEnsureGroupBlocks seqId dpIdx 0 tokens (decide (s.config.mode ≠ .decode))).2.cache.hbmPools
        (s.flatIdx dpIdx 0)) seqId := by
  unfold TakesNothing at h
  rw [Classical.not_imp] at h
  obtain ⟨-, h⟩ := h
  cases hasks : s.asksHost seqId dpIdx with
  | true =>
    rw [hasks, if_pos rfl] at h
    obtain ⟨n, hn⟩ := Nat.exists_eq_add_of_lt (s.admissionBlocks_pos tokens)
    rw [Nat.zero_add] at hn
    unfold retainedBlocks at h
    rw [hn] at h
    have htaken := @reserveLoop_something s.cache (s.flatIdx dpIdx 0) seqId _ s.hostEnabled _ _ n 0 (-1) hfree
      (not_and_or.1 h)
    rw [cacheEnsureGroupBlocks_ask hasks]
    unfold cacheEnsureGroupBlocksWithHostPrefix
    dsimp only
    rw [show s.blocksNeededForTokens (tokens + max s.config.numSpeculativeTokens 0) = n + 1 from hn]
    left
    split
    case h_1 e' c heq =>
      rw [heq] at htaken
      exact htaken.more
    case h_2 blocks c heq =>
      rw [heq] at htaken
      rw [cacheAttachBlocks_cache]
      dsimp only [setCache]
      rw [setHbmPool_self]
      exact htaken.more
  | false =>
    rw [hasks, if_neg Bool.false_ne_true] at h
    obtain ⟨tokenIds, usePrefixCache, hplan, hcache⟩ := cacheEnsureGroupBlocks_cache tokens hasks
    rw [hcache]
    unfold CacheState.ensureHbmBlocks
    dsimp only
    rw [setHbmPool_self]
    exact (ensureBlocks_something tokenIds hfree hplan h).imp_left fun htaken => htaken.more

/-! ### The reservation -/

/-- With one group there is one table to fill. -/
theorem reserveAdmission_cache (s : Scheduler) (seqId : ℕ) (hgroup : s.group = 1) (hmaster : a.master = 0) :
    ∃ b : Scheduler, b.config = s.config ∧ SameTiers s.cache b.cache ∧
      b.cache.prefixCachingEnabled = s.cache.prefixCachingEnabled ∧
      (b.seqTable seqId).map (·.tokenIds) = (s.seqTable seqId).map (·.tokenIds) ∧
      (s.reserveAdmission seqId dpIdx a).2.cache = if 0 < a.fullLen then
        (b.cacheEnsureGroupBlocks seqId dpIdx 0 a.fullLen (decide (b.config.mode ≠ .decode))).2.cache
          else b.cache := by
  have hdispatch : s.computeDispatch dpIdx a.master a.fullLen = [max a.fullLen 0] := by
    unfold computeDispatch dispatchForMaster
    rw [if_pos (Or.inl hgroup.le), hgroup, hmaster]
    rfl
  unfold reserveAdmission
  dsimp only
  rw [hdispatch]
  refine ⟨s.beginAdmission seqId dpIdx a.master a.cached (a.cached + a.newTokens) [max a.fullLen 0],
    rfl, .of_eq rfl rfl rfl,
    rfl, ?_, ?_⟩
  · unfold beginAdmission
    simp only [updateSeq, Function.update_self, setCache, Option.map_map]
    refine congrFun (congrArg Option.map (funext fun seq => ?_)) _
    by_cases hmode : s.config.mode = .decode <;> simp [hmode]
  · by_cases hpos : 0 < a.fullLen
    · rw [if_pos hpos, ensureDispatched, if_pos (by omega), max_eq_left hpos.le]
      split <;> rename_i heq <;> rw [heq]
      rfl
    · rw [if_neg hpos, ensureDispatched, if_neg (by omega)]
      rfl

theorem reserveAdmission_nothing (hgroup : s.group = 1) (hmaster : a.master = 0)
    (h : s.TakesNothing seqId dpIdx a.fullLen) : SameTiers s.cache (s.reserveAdmission seqId dpIdx a).2.cache := by
  obtain ⟨b, hconfig, hcache, henabled, htokens, hres⟩ := reserveAdmission_cache s seqId hgroup hmaster
  rw [hres]
  split
  case isTrue hpos =>
    exact hcache.trans (cacheEnsureGroupBlocks_nothing hpos
      ((TakesNothing.congr hconfig hcache henabled htokens _).2 h))
  case isFalse => exact hcache

theorem reserveAdmission_something (hgroup : s.group = 1) (hmaster : a.master = 0)
    (hfree : ∀ b ∈ (s.cache.hbmPools (s.flatIdx dpIdx 0)).freeBlocks,
      ((s.cache.hbmPools (s.flatIdx dpIdx 0)).blocks b).refCount = 0)
    (h : ¬ s.TakesNothing seqId dpIdx a.fullLen) :
    (s.cache.hbmPools (s.flatIdx dpIdx 0)).Gains
      ((s.reserveAdmission seqId dpIdx a).2.cache.hbmPools (s.flatIdx dpIdx 0)) seqId := by
  obtain ⟨b, hconfig, hcache, henabled, htokens, hres⟩ := reserveAdmission_cache s seqId hgroup hmaster
  have hflat : b.flatIdx dpIdx 0 = s.flatIdx dpIdx 0 := by
    unfold flatIdx Scheduler.group
    rw [hconfig]
  have hpool := hcache.hbm (s.flatIdx dpIdx 0)
  have hpos : 0 < a.fullLen := by
    by_contra hpos
    exact h fun h' => absurd h' hpos
  rw [hres, if_pos hpos]
  have hgains := @cacheEnsureGroupBlocks_something _ b seqId dpIdx a.fullLen (by
    rw [hflat, hpool.freeBlocks, hpool.blocks]
    exact hfree) fun hb => h ((TakesNothing.congr hconfig hcache henabled htokens _).1 hb)
  unfold Gains BlockPool.hasSeq at hgains ⊢
  rwa [hflat, hpool.blocks, hpool.seqBlocks] at hgains

/-! ### The whole try -/

/-- The sequence passes the checks of the try, which goes on to reserve blocks for it. -/
structure PassesChecks (s : Scheduler) (seqId dpIdx : ℕ) (batchSeqs batchTokens : ℕ → ℤ)
    (seq : Sequence) (master : ℕ) :
    Prop where
  entry : s.seqTable seqId = some seq
  slots : s.slotsExhausted seqId dpIdx = false
  group : s.chooseMasterGroup dpIdx batchSeqs batchTokens = some master
  budget : batchTokens master < max s.config.maxNumBatchedTokens 1
  tokens : 0 < s.newPrefillTokens (s.fullLen seq) (s.admissionCached seqId seq dpIdx master).1
    (max s.config.maxNumBatchedTokens 1 - batchTokens master)

/-- What the try has passed leaves it no block to take. -/
def NothingToTake (s : Scheduler) (seqId dpIdx : ℕ) (batchSeqs batchTokens : ℕ → ℤ) : Prop :=
  ∀ seq master, s.PassesChecks seqId dpIdx batchSeqs batchTokens seq master →
    s.TakesNothing seqId dpIdx (s.fullLen seq)

/-- The scheduler when the failed admission has been undone, before a sequence is preempted for it. -/
def undone (s : Scheduler) (seqId dpIdx : ℕ) (batchSeqs batchTokens : ℕ → ℤ) : Scheduler :=
  (s.failedAdmission seqId dpIdx batchSeqs batchTokens).getD (s.tryAllocatePrefill seqId dpIdx batchSeqs batchTokens).2

theorem PassesChecks.prepares {seq : Sequence} {master : ℕ}
    (h : s.PassesChecks seqId dpIdx batchSeqs batchTokens seq master) :
    ∃ a s₁, s.prepareAdmission seqId dpIdx batchSeqs batchTokens = (some a, s₁) ∧
      a.fullLen = s.fullLen seq := by
  have hbudget := h.budget
  have htokens := h.tokens
  unfold prepareAdmission
  rw [h.entry]
  dsimp only
  rw [h.slots, if_neg Bool.false_ne_true, h.group]
  dsimp only
  rw [max_eq_left (by omega : (0 : ℤ) ≤ max s.config.maxNumBatchedTokens 1 - batchTokens master), if_neg (by omega),
    if_neg (by omega)]
  exact ⟨_, _, rfl, rfl⟩

theorem prepareAdmission_passes (h : s.prepareAdmission seqId dpIdx batchSeqs batchTokens = (some a, s₁)) :
    ∃ seq, s.PassesChecks seqId dpIdx batchSeqs batchTokens seq a.master ∧ a.fullLen = s.fullLen seq := by
  have hprep := h
  unfold prepareAdmission at h
  split at h
  case h_1 => cases h
  case h_2 seq hseq =>
    split at h
    case isTrue => cases h
    case isFalse hslots =>
      split at h
      case h_1 => cases h
      case h_2 master hmaster =>
        dsimp only at h
        split at h
        case isTrue => cases h
        case isFalse hbudget =>
          rw [max_eq_left
            (by omega : (0 : ℤ) ≤ max s.config.maxNumBatchedTokens 1 - batchTokens master)] at h hbudget
          split at h
          case isTrue => cases h
          case isFalse hpos =>
            cases h
            have hbelow : batchTokens master < max s.config.maxNumBatchedTokens 1 := by omega
            exact ⟨seq, ⟨hseq, by simpa using hslots, hmaster, hbelow, by simpa using hpos⟩, rfl⟩

theorem nothingToTake_iff (h : s.prepareAdmission seqId dpIdx batchSeqs batchTokens = (some a, s₁)) :
    s.NothingToTake seqId dpIdx batchSeqs batchTokens ↔ s.TakesNothing seqId dpIdx a.fullLen := by
  obtain ⟨seq, hpasses, hlen⟩ := prepareAdmission_passes h
  rw [hlen]
  refine ⟨fun hnothing => hnothing seq a.master hpasses, fun hnothing seq' master' hpasses' => ?_⟩
  rwa [Option.some.inj (hpasses'.entry.symm.trans hpasses.entry)]

/-- The checks only ask the prefix cache. -/
theorem prepareAdmission_tiers (s : Scheduler) (seqId dpIdx : ℕ) (batchSeqs batchTokens : ℕ → ℤ) :
    (s.prepareAdmission seqId dpIdx batchSeqs batchTokens).2.config = s.config ∧
      SameTiers s.cache (s.prepareAdmission seqId dpIdx batchSeqs batchTokens).2.cache ∧
      (s.prepareAdmission seqId dpIdx batchSeqs batchTokens).2.cache.prefixCachingEnabled =
        s.cache.prefixCachingEnabled ∧
      ((s.prepareAdmission seqId dpIdx batchSeqs batchTokens).2.seqTable seqId).map (·.tokenIds) =
        (s.seqTable seqId).map (·.tokenIds) := by
  have hcached : ∀ seq master, (s.admissionCached seqId seq dpIdx master).2.config = s.config ∧
      SameTiers s.cache (s.admissionCached seqId seq dpIdx master).2.cache ∧
      (s.admissionCached seqId seq dpIdx master).2.cache.prefixCachingEnabled = s.cache.prefixCachingEnabled ∧
      ((s.admissionCached seqId seq dpIdx master).2.seqTable seqId).map (·.tokenIds) =
        (s.seqTable seqId).map (·.tokenIds) := by
    intro seq master
    unfold admissionCached
    split
    case isFalse => exact ⟨rfl, .refl _, rfl, rfl⟩
    case isTrue =>
      refine ⟨rfl, SameTiers.matchedLoop _ _ _ _ _ _ _, (matchedLoop_same _ _ _ _ _ _ _).2.2, ?_⟩
      dsimp only
      simp only [updateSeq, Function.update_self, Option.map_map]
      rfl
  rcases h : s.prepareAdmission seqId dpIdx batchSeqs batchTokens with ⟨_ | a, s'⟩
  · rcases prepareAdmission_none h with rfl | ⟨seq, master, -, rfl⟩
    · exact ⟨rfl, .refl _, rfl, rfl⟩
    · exact hcached seq master
  · obtain ⟨seq, -, rfl⟩ := prepareAdmission_some h
    exact hcached seq a.master

theorem undone_refused (h : s.prepareAdmission seqId dpIdx batchSeqs batchTokens = (none, s₁)) :
    s.undone seqId dpIdx batchSeqs batchTokens = s₁ := by
  unfold undone failedAdmission tryAllocatePrefill
  rw [h]
  rfl

/-- Neither undoing nor finishing an admission touches a pool. -/
theorem undone_reserved (h : s.prepareAdmission seqId dpIdx batchSeqs batchTokens = (some a, s₁)) :
    SameTiers (s₁.reserveAdmission seqId dpIdx a).2.cache (s.undone seqId dpIdx batchSeqs batchTokens).cache := by
  unfold undone failedAdmission tryAllocatePrefill
  rw [h]
  dsimp only
  rcases s₁.reserveAdmission seqId dpIdx a with ⟨e | u, s₂⟩
  · exact .of_eq rfl rfl rfl
  · have hsame := s₂.finishAdmission_samePools seqId a.master a.fullLen a.cached
    dsimp only
    split <;> rename_i heq <;> rw [heq] at hsame <;> exact .of_eq hsame.hbmPools hsame.hostPools hsame.swapIns

theorem prepareAdmission_master (hgroup : s.group = 1)
    (h : s.prepareAdmission seqId dpIdx batchSeqs batchTokens = (some a, s₁)) : a.master = 0 := by
  obtain ⟨seq, hpasses, -⟩ := prepareAdmission_passes h
  have hlt := (chooseMasterGroup_some hpasses.group).1
  omega

theorem undone_nothing (hgroup : s.group = 1) (h : s.NothingToTake seqId dpIdx batchSeqs batchTokens) :
    SameTiers s.cache (s.undone seqId dpIdx batchSeqs batchTokens).cache := by
  obtain ⟨hconfig, hcache, henabled, htokens⟩ := s.prepareAdmission_tiers seqId dpIdx batchSeqs batchTokens
  rcases hprep : s.prepareAdmission seqId dpIdx batchSeqs batchTokens with ⟨_ | a, s₁⟩ <;>
    rw [hprep] at hconfig hcache henabled htokens
  · rw [undone_refused hprep]
    exact hcache
  · have hgroup₁ : s₁.group = 1 := by
      unfold Scheduler.group at hgroup ⊢
      rwa [hconfig]
    have hnothing := (TakesNothing.congr hconfig hcache henabled htokens _).2 ((nothingToTake_iff hprep).1 h)
    exact (hcache.trans (reserveAdmission_nothing hgroup₁ (prepareAdmission_master hgroup hprep) hnothing)).trans
      (undone_reserved hprep)

theorem undone_something (hgroup : s.group = 1)
    (hfree : ∀ b ∈ (s.cache.hbmPools (s.flatIdx dpIdx 0)).freeBlocks,
      ((s.cache.hbmPools (s.flatIdx dpIdx 0)).blocks b).refCount = 0)
    (h : ¬ s.NothingToTake seqId dpIdx batchSeqs batchTokens) :
    (s.cache.hbmPools (s.flatIdx dpIdx 0)).Gains
      ((s.undone seqId dpIdx batchSeqs batchTokens).cache.hbmPools (s.flatIdx dpIdx 0)) seqId := by
  obtain ⟨hconfig, hcache, henabled, htokens⟩ := s.prepareAdmission_tiers seqId dpIdx batchSeqs batchTokens
  rcases hprep : s.prepareAdmission seqId dpIdx batchSeqs batchTokens with ⟨_ | a, s₁⟩ <;>
    rw [hprep] at hconfig hcache henabled htokens
  · -- a try that is refused takes nothing
    refine absurd (fun seq master hpasses => ?_) h
    obtain ⟨a, s₂, hsome, -⟩ := PassesChecks.prepares hpasses
    rw [hprep] at hsome
    cases hsome
  · have hgroup₁ : s₁.group = 1 := by
      unfold Scheduler.group at hgroup ⊢
      rwa [hconfig]
    have hflat : s₁.flatIdx dpIdx 0 = s.flatIdx dpIdx 0 := by
      unfold flatIdx Scheduler.group
      rw [hconfig]
    have hpool := hcache.hbm (s.flatIdx dpIdx 0)
    have hlast := (undone_reserved hprep).hbm (s.flatIdx dpIdx 0)
    have hgains := @reserveAdmission_something _ s₁ seqId dpIdx a hgroup₁ (prepareAdmission_master hgroup hprep) (by
      rw [hflat, hpool.freeBlocks, hpool.blocks]
      exact hfree) fun hnothing =>
        h ((nothingToTake_iff hprep).2 ((TakesNothing.congr hconfig hcache henabled htokens _).1 hnothing))
    unfold Gains BlockPool.hasSeq at hgains ⊢
    rwa [hflat, hpool.blocks, hpool.seqBlocks, ← hlast.blocks, ← hlast.seqBlocks] at hgains

/-- A victim is preempted in the state in which the admission has been undone. -/
theorem tryAllocatePrefill_snd (s : Scheduler) (seqId dpIdx : ℕ) (batchSeqs batchTokens : ℕ → ℤ) :
    (s.tryAllocatePrefill seqId dpIdx batchSeqs batchTokens).2 =
      (s.admissionVictim seqId dpIdx batchSeqs batchTokens).elim (s.undone seqId dpIdx batchSeqs batchTokens)
        ((s.undone seqId dpIdx batchSeqs batchTokens).preemptImpl dpIdx) := by
  unfold admissionVictim undone
  cases hfailed : s.failedAdmission seqId dpIdx batchSeqs batchTokens with
  | none => rfl
  | some u =>
    dsimp only [Option.getD_some, Option.bind_some]
    unfold failedAdmission at hfailed
    unfold tryAllocatePrefill
    rcases hprep : s.prepareAdmission seqId dpIdx batchSeqs batchTokens with ⟨_ | a, s₁⟩
    · rw [hprep] at hfailed
      cases hfailed
    · rw [hprep] at hfailed
      dsimp only at hfailed ⊢
      rcases hres : s₁.reserveAdmission seqId dpIdx a with ⟨e | ⟨⟩, s₂⟩
      · rw [hres] at hfailed
        cases hfailed
        dsimp only
        unfold preemptOneForAllocation
        cases (s₂.cancelAdmission seqId).preemptVictim dpIdx seqId <;> rfl
      · rw [hres] at hfailed
        cases hfailed

/-! ## Preemption -/

theorem cachePrepareHostSwapOut_hbmPools (s : Scheduler) (id : ℕ) :
    (s.cachePrepareHostSwapOut id).2.cache.hbmPools = s.cache.hbmPools ∧
      (s.cachePrepareHostSwapOut id).2.cache.pendingSwapInTasks = s.cache.pendingSwapInTasks := by
  unfold cachePrepareHostSwapOut
  split
  case isTrue => exact ⟨rfl, rfl⟩
  case isFalse =>
    split
    case h_1 => exact ⟨rfl, rfl⟩
    case h_2 =>
      dsimp only
      split
      case isTrue => exact ⟨rfl, rfl⟩
      case isFalse =>
        unfold CacheState.ensureHostBlocks
        split <;> rename_i heq <;> obtain ⟨-, rfl⟩ := Prod.mk.inj heq <;> exact ⟨rfl, rfl⟩

/-- A preemption removes its victim from HBM, now or when it has been swapped out, and queues no swap-in. -/
theorem preemptImpl_pools (s : Scheduler) (dpIdx victim : ℕ) :
    (∀ f, (s.preemptImpl dpIdx victim).cache.hbmPools f = s.cache.hbmPools f ∨
      (s.preemptImpl dpIdx victim).cache.hbmPools f = (s.cache.hbmPools f).removeSeq victim) ∧
      (s.preemptImpl dpIdx victim).cache.pendingSwapInTasks = s.cache.pendingSwapInTasks := by
  obtain ⟨hhbm, hswapIns⟩ := (s.updateSeq victim Sequence.requeue).cachePrepareHostSwapOut_hbmPools victim
  unfold preemptImpl
  split <;> rename_i s₁ heq <;> rw [heq] at hhbm hswapIns
  · exact ⟨fun f => Or.inl (congrFun hhbm f), hswapIns⟩
  · refine ⟨fun f => ?_, ?_⟩
    · have hrelease := s₁.cache.releaseSeq_hbmPools victim s₁.group f
      rw [congrFun hhbm f] at hrelease
      by_cases hf : s₁.cache.assignedFlat victim s₁.group = some f
      · rw [if_pos hf] at hrelease
        exact Or.inr hrelease
      · rw [if_neg hf] at hrelease
        exact Or.inl hrelease
    · have hrelease : (s₁.cache.releaseSeq victim s₁.group).pendingSwapInTasks =
        s₁.cache.pendingSwapInTasks := by
        unfold CacheState.releaseSeq
        cases s₁.cache.pendingHostSwaps victim <;> dsimp only <;> split <;> rfl
      exact hrelease.trans hswapIns

theorem preemptImpl_free_le (s : Scheduler) (dpIdx victim f : ℕ) :
    (s.cache.hbmPools f).numFreeBlocks ≤ ((s.preemptImpl dpIdx victim).cache.hbmPools f).numFreeBlocks := by
  rcases (s.preemptImpl_pools dpIdx victim).1 f with hsame | hremoved
  · rw [hsame]
  · rw [hremoved]
    exact length_freeBlocks_removeSeq _ victim

theorem preemptImpl_hasSeq (s : Scheduler) (dpIdx f : ℕ) {victim : ℕ} (hne : seqId ≠ victim) :
    ((s.preemptImpl dpIdx victim).cache.hbmPools f).hasSeq seqId = (s.cache.hbmPools f).hasSeq seqId := by
  rcases (s.preemptImpl_pools dpIdx victim).1 f with hsame | hremoved
  · rw [hsame]
  · unfold BlockPool.hasSeq
    rw [hremoved, removeSeq_seqBlocks, Function.update_of_ne hne]

end Scheduler

namespace BlockPool

variable [Xxh3] {p p' : BlockPool} {held : List ℕ}

/-- A host pool evicts nothing when a free block is taken. -/
theorem Host.allocateFresh_index {b : ℕ} {evicted : Option EvictedBlock} (hp : p.Host held)
    (h : p.allocateFreshWithEviction = (.ok (b, evicted), p')) : p'.hashToBlockId = p.hashToBlockId := by
  unfold allocateFreshWithEviction at h
  split at h
  case h_1 => cases h
  case h_2 b' free hfree =>
    rw [hp.evictedReadyMeta_free (hfree ▸ List.mem_cons_self)] at h
    cases h
    rfl

theorem Host.kept_index (index : ℤ → Option ℕ) : Kept fun p held => p.Host held ∧ p.hashToBlockId = index where
  sound h := h.1.toSound
  congr_held h hheld := ⟨h.1.congr_held hheld, h.2⟩
  setTable h seqId o hnodup hlt hcount := ⟨h.1.setTable seqId o hnodup hlt hcount, h.2⟩
  allocateFresh h halloc := ⟨h.1.allocateFresh halloc, (h.1.allocateFresh_index halloc).trans h.2⟩
  releaseOne h hb := ⟨h.1.releaseOne hb, (releaseOne_hashToBlockId _ _).trans h.2⟩

theorem Host.ensureBlocks_index (hp : p.Host []) (seqId : ℕ) (tokens : ℤ) :
    (p.ensureBlocks seqId [] tokens false).2.hashToBlockId = p.hashToBlockId :=
  ((Host.kept_index p.hashToBlockId).ensureFresh ⟨hp, rfl⟩ seqId [] tokens).2

end BlockPool

namespace Scheduler

variable [Xxh3] {s : Scheduler}

/-- Neither a swap-out nor a release takes an entry from the index of a host pool. -/
theorem preemptImpl_index (hc : s.cache.Hosted) (dpIdx victim f : ℕ) :
    ((s.preemptImpl dpIdx victim).cache.hostPools f).hashToBlockId = (s.cache.hostPools f).hashToBlockId := by
  have hswap :
    (((s.updateSeq victim Sequence.requeue).cachePrepareHostSwapOut victim).2.cache.hostPools f).hashToBlockId =
      (s.cache.hostPools f).hashToBlockId := by
    have hens : ∀ flat tokens, ((s.cache.ensureHostBlocks flat victim [] tokens false).2.hostPools f).hashToBlockId =
        (s.cache.hostPools f).hashToBlockId := by
      intro flat tokens
      unfold CacheState.ensureHostBlocks
      by_cases hf : f = flat
      · subst hf
        rw [setHostPool_self]
        exact (hc.host f).ensureBlocks_index victim tokens
      · rw [setHostPool_of_ne _ _ hf]
    unfold cachePrepareHostSwapOut
    split
    case isTrue => rfl
    case isFalse =>
      split
      case h_1 => rfl
      case h_2 d g _ =>
        dsimp only
        split
        case isTrue => rfl
        case isFalse =>
          split <;> rename_i heq
          · exact (congrArg (fun c : CacheState => (c.hostPools f).hashToBlockId)
              (congrArg Prod.snd heq)).symm.trans (hens _ _)
          · exact (congrArg (fun c : CacheState => (c.hostPools f).hashToBlockId)
              (congrArg Prod.snd heq)).symm.trans (hens _ _)
  unfold preemptImpl
  split <;> rename_i s₁ heq <;> rw [heq] at hswap
  · exact hswap
  · have hrelease := s₁.cache.releaseSeq_hostPools victim s₁.group f
    refine Eq.trans ?_ hswap
    show ((s₁.cache.releaseSeq victim s₁.group).hostPools f).hashToBlockId = _
    rw [hrelease, removeSeq_hashToBlockId]

end Scheduler

open Scheduler

section Try

variable [Xxh3] {config : SchedulerConfig} {s : Scheduler} {seqId dpIdx : ℕ} {batchSeqs batchTokens : ℕ → ℤ}

theorem PoolRule.undone {K : CacheState → Prop} (hK : PoolRule config K) (h : PoolInv config K s) :
    PoolInv config K (s.undone seqId dpIdx batchSeqs batchTokens) := by
  have htry : PoolInv config K (s.tryAllocatePrefill seqId dpIdx batchSeqs batchTokens).2 :=
    hK.tryAllocatePrefill h batchSeqs batchTokens
  have hprep : PoolInv config K (s.prepareAdmission seqId dpIdx batchSeqs batchTokens).2 :=
    hK.prepareAdmission h batchSeqs batchTokens
  unfold Scheduler.undone
  cases hfailed : s.failedAdmission seqId dpIdx batchSeqs batchTokens with
  | none => exact htry
  | some u =>
    unfold failedAdmission at hfailed
    rcases heq : s.prepareAdmission seqId dpIdx batchSeqs batchTokens with ⟨_ | a, s₁⟩ <;>
      rw [heq] at hfailed hprep
    · cases hfailed
    · have hres : PoolInv config K (s₁.reserveAdmission seqId dpIdx a).2 := hK.reserveAdmission hprep a
      dsimp only at hfailed
      rcases heq₁ : s₁.reserveAdmission seqId dpIdx a with ⟨e | ⟨⟩, s₂⟩ <;> rw [heq₁] at hfailed hres
      · cases hfailed
        exact hK.same hres ⟨rfl, rfl, rfl, rfl⟩
      · cases hfailed

namespace Scheduler

/-- A failed try changes the tiers by the preemption of its victim only.  What the sequence holds, on any rank, it held
before. -/
structure LeaksNothing (s : Scheduler) (seqId dpIdx : ℕ) (batchSeqs batchTokens : ℕ → ℤ) : Prop where
  free : ∀ f, ((s.undone seqId dpIdx batchSeqs batchTokens).cache.hbmPools f).numFreeBlocks =
    (s.cache.hbmPools f).numFreeBlocks
  refCount : ∀ f b, (((s.undone seqId dpIdx batchSeqs batchTokens).cache.hbmPools f).blocks b).refCount =
    ((s.cache.hbmPools f).blocks b).refCount
  preempted : (s.tryAllocatePrefill seqId dpIdx batchSeqs batchTokens).2 =
    (s.admissionVictim seqId dpIdx batchSeqs batchTokens).elim (s.undone seqId dpIdx batchSeqs batchTokens)
      ((s.undone seqId dpIdx batchSeqs batchTokens).preemptImpl dpIdx)
  entry : ∀ f, ((s.tryAllocatePrefill seqId dpIdx batchSeqs batchTokens).2.cache.hbmPools f).hasSeq seqId = true →
    (s.cache.hbmPools f).hasSeq seqId = true
  index : ∀ f h b, (s.cache.hostPools f).hashToBlockId h = some b →
    ((s.tryAllocatePrefill seqId dpIdx batchSeqs batchTokens).2.cache.hostPools f).hashToBlockId h = some b
  swapIns : ∀ f, ∀ task ∈ (s.tryAllocatePrefill seqId dpIdx batchSeqs batchTokens).2.cache.pendingSwapInTasks f,
    task.seqId = seqId → task ∈ s.cache.pendingSwapInTasks f

/-- A try that fails with no block to take. -/
structure FailsAgain (seqId dpIdx : ℕ) (batchSeqs batchTokens : ℕ → ℤ) (s s' : Scheduler) : Prop where
  failed : ∀ n, (s.tryAllocatePrefill seqId dpIdx batchSeqs batchTokens).1 ≠ .ok (some n)
  nothing : s.NothingToTake seqId dpIdx batchSeqs batchTokens
  next : s' = (s.tryAllocatePrefill seqId dpIdx batchSeqs batchTokens).2

theorem admissionVictim_ne {victim : ℕ} (h : s.admissionVictim seqId dpIdx batchSeqs batchTokens = some victim) :
    seqId ≠ victim := by
  obtain ⟨u, -, hvictim⟩ := Option.bind_eq_some_iff.1 h
  exact (preemptVictim_mem hvictim).2.1.symm

theorem leaksNothing_of_nothingToTake (hc : (s.undone seqId dpIdx batchSeqs batchTokens).cache.Hosted)
    (hgroup : s.group = 1)
    (h : s.NothingToTake seqId dpIdx batchSeqs batchTokens) : s.LeaksNothing seqId dpIdx batchSeqs batchTokens := by
  have hsame := undone_nothing hgroup h
  have hsnd := s.tryAllocatePrefill_snd seqId dpIdx batchSeqs batchTokens
  have hseq : ∀ f, ((s.undone seqId dpIdx batchSeqs batchTokens).cache.hbmPools f).hasSeq seqId =
      (s.cache.hbmPools f).hasSeq seqId := by
    intro f
    unfold BlockPool.hasSeq
    rw [(hsame.hbm f).seqBlocks]
  refine ⟨fun f => ?_, fun f b => ?_, hsnd, fun f => ?_, fun f k b hb => ?_, fun f task htask _ => ?_⟩
  · exact congrArg List.length (hsame.hbm f).freeBlocks
  · rw [(hsame.hbm f).blocks]
  · rw [hsnd, ← hseq]
    cases hvictim : s.admissionVictim seqId dpIdx batchSeqs batchTokens with
    | none => exact id
    | some victim =>
      rw [Option.elim_some, preemptImpl_hasSeq _ _ _ (admissionVictim_ne hvictim)]
      exact id
  · rw [← (hsame.host f).hashToBlockId] at hb
    rw [hsnd]
    cases s.admissionVictim seqId dpIdx batchSeqs batchTokens with
    | none => exact hb
    | some victim => rwa [Option.elim_some, preemptImpl_index hc]
  · rw [hsnd] at htask
    cases hvictim : s.admissionVictim seqId dpIdx batchSeqs batchTokens with
    | none =>
      rw [hvictim, Option.elim_none, hsame.swapIns] at htask
      exact htask
    | some victim =>
      rw [hvictim, Option.elim_some, (preemptImpl_pools _ _ _).2, hsame.swapIns] at htask
      exact htask

theorem nothingToTake_of_leaksNothing (hcounted : s.cache.PoolsCounted) (hgroup : s.group = 1)
    (h : s.LeaksNothing seqId dpIdx batchSeqs batchTokens) : s.NothingToTake seqId dpIdx batchSeqs batchTokens := by
  by_contra hsome
  rcases undone_something hgroup (hcounted _).1.free_refCount hsome with ⟨b, hmore⟩ | ⟨hentry, hnew⟩
  · rw [h.refCount] at hmore
    exact Nat.lt_irrefl _ hmore
  · -- the new table is still there after the preemption
    have hstill : ((s.tryAllocatePrefill seqId dpIdx batchSeqs batchTokens).2.cache.hbmPools
      (s.flatIdx dpIdx 0)).hasSeq seqId =
        true := by
      rw [h.preempted]
      cases hvictim : s.admissionVictim seqId dpIdx batchSeqs batchTokens with
      | none => exact hentry
      | some victim => rwa [Option.elim_some, preemptImpl_hasSeq _ _ _ (admissionVictim_ne hvictim)]
    have hbefore := h.entry _ hstill
    rw [hnew] at hbefore
    cases hbefore

/-- The pools do not matter for the configuration. -/
theorem tryAllocatePrefill_config (s : Scheduler) (seqId dpIdx : ℕ) (batchSeqs batchTokens : ℕ → ℤ) :
    (s.tryAllocatePrefill seqId dpIdx batchSeqs batchTokens).2.config = s.config := by
  have hrule : PoolRule s.config fun _ => True :=
    ⟨fun _ _ _ _ _ => trivial, trivial, fun _ _ _ => trivial, fun _ _ _ => trivial, fun _ _ _ _ => trivial,
      fun _ _ _ _ => trivial, fun _ _ _ _ _ _ _ _ _ _ => trivial, fun _ _ _ _ _ _ _ _ => trivial,
      fun _ _ _ _ _ => trivial, fun _ _ _ _ _ _ _ _ _ _ => trivial, fun _ _ _ _ _ _ _ _ _ _ => trivial,
      fun _ _ _ _ _ _ => trivial⟩
  exact (hrule.tryAllocatePrefill ⟨rfl, trivial⟩ batchSeqs batchTokens).config_eq

theorem FailsAgain.free_le {s' : Scheduler} (hgroup : s.group = 1)
    (h : FailsAgain seqId dpIdx batchSeqs batchTokens s s') (f : ℕ) :
    (s.cache.hbmPools f).numFreeBlocks ≤ (s'.cache.hbmPools f).numFreeBlocks := by
  have hsame : (s.cache.hbmPools f).numFreeBlocks =
      ((s.undone seqId dpIdx batchSeqs batchTokens).cache.hbmPools f).numFreeBlocks :=
    congrArg List.length ((undone_nothing hgroup h.nothing).hbm f).freeBlocks.symm
  rw [h.next, tryAllocatePrefill_snd, hsame]
  cases s.admissionVictim seqId dpIdx batchSeqs batchTokens with
  | none => exact le_rfl
  | some victim => exact preemptImpl_free_le _ _ _ _

/-- However often the try is repeated. -/
theorem failsAgain_free_le {s' : Scheduler} (hgroup : s.group = 1)
    (h : Relation.ReflTransGen (FailsAgain seqId dpIdx batchSeqs batchTokens) s s') (f : ℕ) :
    (s.cache.hbmPools f).numFreeBlocks ≤ (s'.cache.hbmPools f).numFreeBlocks := by
  have hboth : s'.group = 1 ∧ (s.cache.hbmPools f).numFreeBlocks ≤ (s'.cache.hbmPools f).numFreeBlocks := by
    induction h with
    | refl => exact ⟨hgroup, le_rfl⟩
    | @tail s₁ s₂ _ hone ih =>
      refine ⟨?_, ih.2.trans (hone.free_le ih.1 f)⟩
      have hconfig := s₁.tryAllocatePrefill_config seqId dpIdx batchSeqs batchTokens
      rw [← hone.next] at hconfig
      unfold Scheduler.group at ih ⊢
      rw [hconfig]
      exact ih.1
  exact hboth.2

end Scheduler

/-- **A failed admission leaks nothing exactly if there is no block to take for it**; while that is so, it may be
repeated without a loss of free blocks. -/
theorem tryAllocatePrefill_leaksNothing (hash : HashInjective) {st : PrefillState} (hst : Attempts config st)
    (hgroup : config.group = 1) (seqId dpIdx : ℕ) :
    (st.sched.LeaksNothing seqId dpIdx (st.numSeqs dpIdx) (st.numTokens dpIdx) ↔
      st.sched.NothingToTake seqId dpIdx (st.numSeqs dpIdx) (st.numTokens dpIdx)) ∧
    ∀ s', Relation.ReflTransGen (FailsAgain seqId dpIdx (st.numSeqs dpIdx) (st.numTokens dpIdx)) st.sched s' →
      ∀ f, (st.sched.cache.hbmPools f).numFreeBlocks ≤ (s'.cache.hbmPools f).numFreeBlocks := by
  have hhosted := (hosted_rule hash config).attempts hst
  have hcounted := (poolsCounted_rule config).attempts hst
  have hone : st.sched.group = 1 := by
    unfold Scheduler.group
    rw [hhosted.config_eq, hgroup]
  exact ⟨⟨nothingToTake_of_leaksNothing hcounted.pools hone,
    leaksNothing_of_nothingToTake ((hosted_rule hash config).undone hhosted).pools hone⟩,
    fun _ hrun => failsAgain_free_le hone hrun⟩

end Try

section witness

attribute [local instance] codeHash

/-- The `schedule` call when it turns to a sequence after the continuations. -/
def turnsTo (s : Scheduler) (seqId : ℕ) : PrefillState :=
  let st := (PrefillState.init { s with currentStep := s.currentStep + 1 }).continueAll
  st.withSched (st.sched.routeCandidates seqId).2

/-- Sequence 0 has the only block when sequence 1 arrives. -/
def crowdedOps : List EngineOp :=
  [.addRequest { seqId := 0, promptTokenIds := [5] }, .step [[[9]]] [],
    .addRequest { seqId := 1, promptTokenIds := [7] }]

def oneBlockConfig : SchedulerConfig := { swappedConfig 0 with numKvcacheBlocks := 1 }

/-- The try for sequence 1 gets as far as the reservation, and nothing is free or cached for it. -/
def findsNothing (st : PrefillState) : Bool :=
  (st.sched.prepareAdmission 1 0 (st.numSeqs 0) (st.numTokens 0)).1.any fun a =>
    st.sched.asksHost 1 0 && (st.sched.cache.hbmPools (st.sched.flatIdx 0 0)).freeBlocks.isEmpty &&
      (st.sched.retainedBlocks 1 0 a.fullLen).isEmpty

/-- The try fails, sequence 0 is preempted and nothing leaks. -/
theorem tryAllocatePrefill_leaksNothing_crowded : ∃ st : PrefillState, Attempts oneBlockConfig st ∧
    isAdmitted (st.tryOn 1 0).1 = false ∧ st.sched.LeaksNothing 1 0 (st.numSeqs 0) (st.numTokens 0) := by
  obtain ⟨x, hx, hP⟩ := Transition.Reachable.exists_of_run (T := engineSystem oneBlockConfig)
    (G := Transition.always)
    (P := fun x : EngineState => !isAdmitted ((turnsTo x.sched 1).tryOn 1 0).1 && findsNothing (turnsTo x.sched 1))
    (s := EngineState.init oneBlockConfig) crowdedOps rfl (by decide +kernel)
  simp only [findsNothing, Bool.and_eq_true, Bool.not_eq_true', Option.any_eq_true, List.isEmpty_iff] at hP
  obtain ⟨hfailed, a, hprep, ⟨hasks, hnil⟩, hretained⟩ := hP
  have hst : Attempts oneBlockConfig (turnsTo x.sched 1) := (Attempts.continued hx).routed 1
  refine ⟨turnsTo x.sched 1, hst, hfailed,
    (tryAllocatePrefill_leaksNothing hashInjective_codeHash hst (by decide) 1 0).1.2 ?_⟩
  refine (nothingToTake_iff (Prod.ext hprep rfl)).2 fun _ => ?_
  rw [hasks, if_pos rfl]
  exact ⟨hnil, hretained⟩

/-- A block has been taken for sequence 1 and kept. -/
def keepsBlock (st : PrefillState) : Bool :=
  (List.range 3).any fun b =>
    decide ((((st.sched.undone 1 0 (st.numSeqs 0) (st.numTokens 0)).cache.hbmPools 0).blocks b).refCount ≠
      ((st.sched.cache.hbmPools 0).blocks b).refCount)

/-- A free `Ready` block is taken for sequence 1 and cannot be written back: the host pool is full. -/
theorem not_leaksNothing :
    ¬ ∀ (config : SchedulerConfig) (st : PrefillState) (seqId dpIdx : ℕ), Attempts config st →
    config.group = 1 → (∀ n, (st.tryOn seqId dpIdx).1 ≠ .ok (some n)) →
      st.sched.LeaksNothing seqId dpIdx (st.numSeqs dpIdx) (st.numTokens dpIdx) := by
  intro h
  obtain ⟨x, hx, hP⟩ := Transition.Reachable.exists_of_run (T := engineSystem (swappedConfig 2))
    (G := Transition.always)
    (P := fun x : EngineState => isPlaced ((turnsToRestored x.sched).tryRank 0 0).1 &&
      !isAdmitted ((turnsToNext x.sched).tryOn 1 0).1 && keepsBlock (turnsToNext x.sched))
    (s := EngineState.init (swappedConfig 2)) swappedOps rfl (by decide +kernel)
  simp only [keepsBlock, Bool.and_eq_true, Bool.not_eq_true', List.any_eq_true, decide_eq_true_eq] at hP
  obtain ⟨⟨hplaced, hfailed⟩, b, -, hmore⟩ := hP
  refine hmore
    ((h (swappedConfig 2) (turnsToNext x.sched) 1 0 (turnsToNext_attempts hx hplaced) (by decide) ?_).refCount 0 b)
  intro n hn
  rw [hn] at hfailed
  cases hfailed

end witness

end NanoEngine
