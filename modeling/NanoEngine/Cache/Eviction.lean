import NanoEngine.Cache.PoolRuns

/-!
# NanoEngine.Cache.Eviction — which index entry an allocation removes

`allocate_fresh_with_eviction` removes the entry under the hash of the block it takes without asking which block the
entry has.

* `EvictsOwn`: the next allocation leaves what other blocks have in the index; `evictsOwn_iff` says when.
* `hbmOutcomes`: the runs of one pool with the operations that fail half way.
* `Contents`: invariants of the contents of the blocks go through all operations, failed ones included.
* `Indexed`: every `Ready` block is in the index.  It holds as long as no block is recorded under the hash of another
  one (`recordsOwn`), and then all allocations are of the kind of `EvictsOwn`.
-/

namespace NanoEngine

open Transition

namespace BlockPool

/-- From `p` to `p'` nothing is lost of what blocks other than `b` have in the index. -/
structure KeepsOthers (p p' : BlockPool) (b : ℕ) : Prop where
  index : ∀ h c, c ≠ b → p.hashToBlockId h = some c → p'.hashToBlockId h = some c
  found : ∀ h tokens c, c ≠ b → p.lookupReadyBlock h tokens = some c → p'.lookupReadyBlock h tokens = some c

def EvictsOwn (p : BlockPool) : Prop :=
  ∀ b evicted p', p.allocateFreshWithEviction = (.ok (b, evicted), p') → KeepsOthers p p' b

/-- If the next free block is still `Ready`, the index has no other block under its hash. -/
def OwnEntry (p : BlockPool) : Prop :=
  ∀ b ∈ p.freeBlocks.head?, ∀ e ∈ p.evictedReadyMeta b, ∀ c ∈ p.hashToBlockId e.hash, c = b

variable {p p' : BlockPool} {b : ℕ}

theorem lookupReadyBlock_eq_some {hash : ℤ} {tokens : List ℤ} (hlt : b < p.numBlocks)
    (hindex : p.hashToBlockId hash = some b)
    (hstate : (p.blocks b).state = .ready) (hhash : (p.blocks b).hash = hash)
    (htokens : (p.blocks b).tokenIds = tokens) :
    p.lookupReadyBlock hash tokens = some b := by
  unfold lookupReadyBlock getBlock BlockMeta.readyMatches
  simp [hindex, hlt, hstate, hhash, htokens]

/-- The other blocks stay as they are, so only their entries matter. -/
theorem KeepsOthers.of_index (hfresh : Fresh p b p')
    (h : ∀ h c, c ≠ b → p.hashToBlockId h = some c → p'.hashToBlockId h = some c) : KeepsOthers p p' b where
  index := h
  found := by
    intro hash tokens c hc hlookup
    obtain ⟨hlt, hindex, hstate, hhash, htokens⟩ := lookupReadyBlock_some hlookup
    refine lookupReadyBlock_eq_some (hfresh.numBlocks ▸ hlt) (h hash c hc hindex) ?_ ?_ ?_ <;>
      rw [hfresh.blocks c hc] <;> assumption

theorem allocateFreshWithEviction_index {evicted : Option EvictedBlock}
    (h : p.allocateFreshWithEviction = (.ok (b, evicted), p')) :
    p.freeBlocks.head? = some b ∧ (p.evictedReadyMeta b = none → p'.hashToBlockId = p.hashToBlockId) ∧
      ∀ e, p.evictedReadyMeta b = some e → p'.hashToBlockId = Function.update p.hashToBlockId e.hash none := by
  unfold allocateFreshWithEviction at h
  split at h
  case h_1 => cases h
  case h_2 c free hfree =>
    simp only [Prod.mk.injEq, Except.ok.injEq] at h
    obtain ⟨⟨rfl, -⟩, rfl⟩ := h
    refine ⟨by rw [hfree]; rfl, fun he => ?_, fun e he => ?_⟩ <;> rw [he] <;> rfl

theorem evictedReadyMeta_some {e : EvictedBlock} (h : p.evictedReadyMeta b = some e) :
    b < p.numBlocks ∧ (p.blocks b).state = .ready ∧ e.hash = (p.blocks b).hash ∧ e.tokenIds =
      (p.blocks b).tokenIds := by
  unfold evictedReadyMeta getBlock at h
  split at h
  case h_1 => cases h
  case h_2 m hm =>
    split at hm
    case isFalse => cases hm
    case isTrue hlt =>
      cases hm
      split at h
      case isTrue => cases h
      case isFalse hready =>
        cases h
        rw [not_or, not_not] at hready
        exact ⟨hlt, hready.1, rfl, rfl⟩

theorem evictsOwn_iff (p : BlockPool) : p.EvictsOwn ↔ p.OwnEntry := by
  constructor
  · intro hown b hb e he c hc
    by_contra hne
    -- only the head of the free list is evicted by the next allocation
    cases hfree : p.freeBlocks with
    | nil =>
      rw [hfree] at hb
      cases hb
    | cons b' free =>
      rw [hfree] at hb
      cases hb
      cases halloc : p.allocateFreshWithEviction with
      | mk r p' =>
        cases r with
        | error err =>
          unfold allocateFreshWithEviction at halloc
          rw [hfree] at halloc
          cases halloc
        | ok x =>
          obtain ⟨d, evicted⟩ := x
          obtain ⟨hhead, -, hindex⟩ := allocateFreshWithEviction_index halloc
          rw [hfree] at hhead
          cases hhead
          have hkept := (hown b evicted p' halloc).index e.hash c hne hc
          rw [hindex e he, Function.update_self] at hkept
          cases hkept
  · intro hown b evicted p' halloc
    obtain ⟨hhead, hsame, hindex⟩ := allocateFreshWithEviction_index halloc
    refine .of_index (allocateFreshWithEviction_fresh halloc).1 fun h c hc hentry => ?_
    cases he : p.evictedReadyMeta b with
    | none => rwa [hsame he]
    | some e =>
      have hne : h ≠ e.hash := by
        rintro rfl
        exact hc (hown b hhead e he c hentry)
      rw [hindex e he, Function.update_of_ne hne]
      exact hentry

/-! ### What the operations do to the contents of the blocks -/

section Contents

variable [Xxh3]

/-- `I` speaks of the contents of the blocks and of the index, and taking or promoting a block keeps it. -/
structure Contents (I : BlockPool → Prop) : Prop where
  /-- references, tables and queues do not matter -/
  congr : ∀ {p p' : BlockPool}, I p → p'.numBlocks = p.numBlocks →
    (∀ b, (p'.blocks b).state = (p.blocks b).state ∧ (p'.blocks b).hash = (p.blocks b).hash ∧
      (p'.blocks b).tokenIds = (p.blocks b).tokenIds) → p'.hashToBlockId = p.hashToBlockId → I p'
  allocate : ∀ {p p' : BlockPool} {b : ℕ} {evicted : Option EvictedBlock}, I p →
    p.allocateFreshWithEviction = (.ok (b, evicted), p') → I p'
  /-- a prefix is promoted after the lookup has missed -/
  promote : ∀ {p p' : BlockPool} {b : ℕ} {evicted : Option EvictedBlock} {h : ℤ} {view : List ℤ}, I p →
    HashOf h view →
    p.lookupReadyBlock h view = none → p.allocatePromotedReady h view = (.ok (b, evicted), p') → I p'

variable {I : BlockPool → Prop}

theorem Contents.touchReadyHash (hI : Contents I) (hp : I p) (h : ℤ) : I (p.touchReadyHash h) :=
  hI.congr hp (touchReadyHash_numBlocks p h) (fun b => by simp) (touchReadyHash_hashToBlockId p h)

theorem Contents.setSeqBlocks (hI : Contents I) (hp : I p) (f : ℕ → Option (List ℕ)) :
    I { p with seqBlocks := f } :=
  hI.congr hp rfl (fun _ => ⟨rfl, rfl, rfl⟩) rfl

theorem Contents.retainBlock (hI : Contents I) (hp : I p) (b : ℕ) : I (p.retainBlock b).2 := by
  unfold BlockPool.retainBlock
  split
  case isFalse => exact hp
  case isTrue =>
    refine hI.congr hp rfl (fun c => ?_) rfl
    by_cases hcb : c = b
    · subst hcb
      simp [setBlock]
    · simp [setBlock, Function.update_of_ne hcb]

theorem Contents.releaseOne (hI : Contents I) (hp : I p) (b : ℕ) : I (p.releaseOne b) := by
  refine hI.congr hp (releaseOne_numBlocks p b) (releaseOne_meta p b) ?_
  unfold BlockPool.releaseOne
  split
  case isFalse => rfl
  case isTrue =>
    dsimp only
    split <;> rfl

theorem Contents.removeSeq (hI : Contents I) (hp : I p) (seqId : ℕ) : I (p.removeSeq seqId) := by
  have hfold : ∀ (blocks : List ℕ) (p : BlockPool), I p → I (blocks.foldl BlockPool.releaseOne p) := by
    intro blocks
    induction blocks with
    | nil => exact fun p hp => hp
    | cons b blocks ih => exact fun p hp => ih _ (hI.releaseOne hp b)
  unfold BlockPool.removeSeq
  split
  case h_1 => exact hp
  case h_2 blocks _ => exact hfold blocks _ (hI.setSeqBlocks hp _)

theorem Contents.growLoop (hI : Contents I) (hp : I p) (seqId n : ℕ) : I (BlockPool.growLoop seqId n p).2 := by
  induction n generalizing p with
  | zero => exact hp
  | succ n ih =>
    unfold BlockPool.growLoop
    split
    case h_1 e p' h => exact allocateFreshWithEviction_error h ▸ hp
    case h_2 b evicted p' h => exact ih (hI.setSeqBlocks (hI.allocate hp h) _)

theorem Contents.takePlan (hI : Contents I) (hp : I p) (plan : List (Option ℕ)) :
    I (BlockPool.takePlan plan p).2 := by
  induction plan generalizing p with
  | nil => exact hp
  | cons o plan ih =>
    cases o with
    -- a planned hit is retained, which changes no content
    | some b =>
      have hnext := hI.retainBlock hp b
      unfold BlockPool.takePlan
      split
      case h_1 e p' h =>
        rw [h] at hnext
        exact hnext
      case h_2 p' h =>
        rw [h] at hnext
        have hrest := ih hnext
        split
        case h_1 e p'' h' =>
          rw [h'] at hrest
          exact hrest
        case h_2 out p'' h' =>
          rw [h'] at hrest
          exact hrest
    | none =>
      unfold BlockPool.takePlan
      split
      case h_1 e p' h => exact allocateFreshWithEviction_error h ▸ hp
      case h_2 b evicted p' h =>
        have hrest := ih (hI.allocate hp h)
        split
        case h_1 e p'' h' =>
          rw [h'] at hrest
          exact hrest
        case h_2 out p'' h' =>
          rw [h'] at hrest
          exact hrest

theorem Contents.ensureBlocks (hI : Contents I) (hp : I p) (seqId : ℕ) (tokenIds : List ℤ) (tokens : ℤ)
    (usePrefixCache : Bool) : I (p.ensureBlocks seqId tokenIds tokens usePrefixCache).2 := by
  unfold BlockPool.ensureBlocks
  dsimp only
  split
  case isTrue =>
    have hgrow := hI.growLoop hp seqId (p.numBlocksForTokens tokens - ((p.seqBlocks seqId).getD []).length)
    unfold growExisting
    split
    case h_1 e p' h =>
      rw [h] at hgrow
      exact hgrow
    case h_2 p' h =>
      rw [h] at hgrow
      exact hgrow
  case isFalse =>
    split
    case isTrue => exact hp
    case isFalse =>
      have htake := hI.takePlan hp (p.planNewBlocks tokenIds (p.numBlocksForTokens tokens) usePrefixCache)
      split
      case h_1 e p' h =>
        rw [h] at htake
        exact htake
      case h_2 out p' h =>
        rw [h] at htake
        exact hI.setSeqBlocks htake _

theorem Contents.insertSeqBlocks (hI : Contents I) (hp : I p) (seqId : ℕ) (blocks : List ℕ) :
    I (p.insertSeqBlocks seqId blocks) :=
  hI.congr hp rfl (fun _ => ⟨rfl, rfl, rfl⟩) rfl

theorem Contents.lookup (hI : Contents I) (hp : I p) (h : ℤ) (view : List ℤ) :
    I (p.lookupReadyPrefixBlock h view).2 := by
  unfold lookupReadyPrefixBlock
  split
  case h_1 => exact hp
  case h_2 => exact hI.touchReadyHash hp h

end Contents

end BlockPool

namespace CacheState

variable [Xxh3] {I : BlockPool → Prop} {c : CacheState} {flat seqId : ℕ} {hostEnabled : Bool}

open BlockPool

theorem reserveFresh_contents (hI : Contents I) (hp : I (c.hbmPools flat)) :
    I ((c.reserveFresh flat hostEnabled).2.hbmPools flat) := by
  unfold reserveFresh
  split
  case h_1 e p h =>
    rw [setHbmPool_self]
    exact allocateFreshWithEviction_error h ▸ hp
  case h_2 b evicted p h =>
    have hpools := writeBackEvictedPrefix_hbmPools (c.setHbmPool flat p) flat evicted hostEnabled
    have hnext : I ((c.setHbmPool flat p).hbmPools flat) := by
      rw [setHbmPool_self]
      exact hI.allocate hp h
    rw [← hpools] at hnext
    split
    case h_1 e c' h' =>
      rw [h'] at hnext
      exact hnext
    case h_2 c' h' =>
      rw [h'] at hnext
      exact hnext

theorem reservePromoted_contents {h : ℤ} {view : List ℤ} {hostBlock : ℕ} (hI : Contents I)
    (hp : I (c.hbmPools flat))
    (hview : HashOf h view) (hmiss : (c.hbmPools flat).lookupReadyBlock h view = none) :
    I ((c.reservePromoted flat seqId h view hostBlock hostEnabled).2.hbmPools flat) := by
  unfold reservePromoted
  split
  case h_1 e p halloc =>
    rw [setHbmPool_self]
    unfold allocatePromotedReady at halloc
    split at halloc
    case h_1 e' p' halloc' =>
      cases halloc
      exact allocateFreshWithEviction_error halloc' ▸ hp
    case h_2 => cases halloc
  case h_2 b evicted p halloc =>
    have hpools := writeBackEvictedPrefix_hbmPools (c.setHbmPool flat p) flat evicted hostEnabled
    have hnext : I ((c.setHbmPool flat p).hbmPools flat) := by
      rw [setHbmPool_self]
      exact hI.promote hp hview hmiss halloc
    rw [← hpools] at hnext
    split
    case h_1 e c' h' =>
      rw [h'] at hnext
      exact hnext
    case h_2 c' h' =>
      rw [h'] at hnext
      exact hnext

theorem reserveRetained_contents (hI : Contents I) (hp : I (c.hbmPools flat)) (b : ℕ) :
    I ((c.reserveRetained flat b).2.hbmPools flat) := by
  have hnext := hI.retainBlock hp b
  unfold reserveRetained
  split
  case h_1 e p h =>
    rw [h] at hnext
    rwa [setHbmPool_self]
  case h_2 p h =>
    rw [h] at hnext
    rwa [setHbmPool_self]

/-- One iteration keeps `I`, whatever it finds and also when it fails. -/
theorem reserveStep_contents {h : ℤ} {view : List ℤ} {lookup : Bool} (hI : Contents I) (hp : I (c.hbmPools flat))
    (hview : lookup = true → HashOf h view) :
    I ((c.reserveStep flat seqId h view lookup hostEnabled).2.2.hbmPools flat) := by
  unfold reserveStep
  split
  case isFalse => exact reserveFresh_contents hI hp
  case isTrue hlookup =>
    dsimp only
    have hlooked : I ((c.setHbmPool flat ((c.hbmPools flat).lookupReadyPrefixBlock h view).2).hbmPools flat) := by
      rw [setHbmPool_self]
      exact hI.lookup hp h view
    split
    case h_1 b hhit => exact reserveRetained_contents hI hlooked b
    case h_2 hmiss =>
      have hnone : (c.hbmPools flat).lookupReadyBlock h view = none := by
        unfold lookupReadyPrefixBlock at hmiss
        split at hmiss
        case h_1 hnone => exact hnone
        case h_2 => cases hmiss
      have hsame : ((c.hbmPools flat).lookupReadyPrefixBlock h view).2 = c.hbmPools flat := by
        unfold lookupReadyPrefixBlock
        rw [hnone]
      rw [hsame] at hlooked ⊢
      split
      case h_1 hostBlock _ =>
        refine reservePromoted_contents hI ?_ (hview hlookup) ?_
        · exact hlooked
        · rw [setHostPool_hbmPools, setHbmPool_self]
          exact hnone
      case h_2 => exact reserveFresh_contents hI hlooked

/-- What every iteration keeps holds after the loop, and every error of the loop is one of an iteration; `J` may depend
on the number of iterations that are left. -/
theorem reserveLoop_countdown {J : ℕ → CacheState → Prop} {E : PyErr → Prop}
    (hstep : ∀ k c h view lookup, J (k + 1) c → (lookup = true → HashOf h view) →
      J k (c.reserveStep flat seqId h view lookup hostEnabled).2.2 ∧
        ∀ e, (c.reserveStep flat seqId h view lookup hostEnabled).1 = .error e → E e)
    {tokenIds : List ℤ} {blockSize n blockIdx : ℕ} {h : ℤ} {cacheMiss : Bool} {views : List (List ℤ)}
    (hh : cacheMiss = false → h = prefixHash views) (hc : J n c) :
    (∃ k, J k (reserveLoop flat seqId tokenIds blockSize hostEnabled n blockIdx h cacheMiss c).2) ∧
      ∀ e, (reserveLoop flat seqId tokenIds blockSize hostEnabled n blockIdx h cacheMiss c).1 = .error e → E e := by
  -- on the blocks that are left; a running hash is that of the views so far until the first miss
  induction n generalizing blockIdx views h cacheMiss c with
  | zero => exact ⟨⟨0, hc⟩, fun e he => by cases he⟩
  | succ n ih =>
    rw [reserveLoop]
    generalize hview : blockView blockSize tokenIds blockIdx = view
    generalize hlookup : (decide (view.length = blockSize) && !cacheMiss) = lookup
    have hnext : lookup = true →
        (if lookup = true then computeBlockHash view h else h) = prefixHash (views ++ [view]) := by
      intro hl
      rw [← hlookup, Bool.and_eq_true, Bool.not_eq_true'] at hl
      rw [← hlookup, if_pos (by simp [hl.1, hl.2]), hh hl.2, prefixHash_append]
    generalize (if lookup = true then computeBlockHash view h else h) = h' at hnext ⊢
    have hone := hstep n c h' view lookup hc fun hl => ⟨views, by rw [hnext hl, prefixHash_append]⟩
    split
    case h_1 e cacheMiss₁ c₁ h₁ =>
      rw [h₁] at hone
      exact ⟨⟨n, hone.1⟩, fun e' he' => hone.2 e' (by cases he'; rfl)⟩
    case h_2 b cacheMiss₁ c₁ h₁ =>
      rw [h₁] at hone
      have hhit : cacheMiss₁ = false → h' = prefixHash (views ++ [view]) := by
        rintro rfl
        refine hnext ?_
        by_contra hl
        rw [Bool.not_eq_true] at hl
        rw [hl, reserveStep, if_neg Bool.false_ne_true] at h₁
        cases congrArg (fun x => x.2.1) h₁
      have hrest :
        (∃ k, J k (reserveLoop flat seqId tokenIds blockSize hostEnabled n (blockIdx + 1) h' cacheMiss₁ c₁).2) ∧
          ∀ e, (reserveLoop flat seqId tokenIds blockSize hostEnabled n (blockIdx + 1) h'
            cacheMiss₁ c₁).1 = .error e →
            E e := ih hhit hone.1
      split
      case h_1 e c₂ h₂ =>
        rw [h₂] at hrest
        exact ⟨hrest.1, fun e' he' => hrest.2 e' (by cases he'; rfl)⟩
      case h_2 blocks c₂ h₂ =>
        rw [h₂] at hrest
        exact ⟨hrest.1, fun e' he' => by cases he'⟩

theorem reserveLoop_rule {J : CacheState → Prop} {E : PyErr → Prop}
    (hstep : ∀ c h view lookup, J c → (lookup = true → HashOf h view) →
      J (c.reserveStep flat seqId h view lookup hostEnabled).2.2 ∧
        ∀ e, (c.reserveStep flat seqId h view lookup hostEnabled).1 = .error e → E e)
    {tokenIds : List ℤ} {blockSize n blockIdx : ℕ} {h : ℤ} {cacheMiss : Bool} {views : List (List ℤ)}
    (hh : cacheMiss = false → h = prefixHash views) (hc : J c) :
    J (reserveLoop flat seqId tokenIds blockSize hostEnabled n blockIdx h cacheMiss c).2 ∧
      ∀ e, (reserveLoop flat seqId tokenIds blockSize hostEnabled n blockIdx h cacheMiss c).1 = .error e → E e := by
  obtain ⟨⟨-, hkept⟩, herror⟩ := reserveLoop_countdown (J := fun _ => J) (E := E) (fun _ => hstep) hh hc
  exact ⟨hkept, herror⟩

theorem reserveLoop_contents (hI : Contents I) {tokenIds : List ℤ} {blockSize n blockIdx : ℕ}
    {h : ℤ} {cacheMiss : Bool}
    {views : List (List ℤ)} (hh : cacheMiss = false → h = prefixHash views) (hp : I (c.hbmPools flat)) :
    I ((reserveLoop flat seqId tokenIds blockSize hostEnabled n blockIdx h cacheMiss c).2.hbmPools flat) :=
  (reserveLoop_rule (J := fun c => I (c.hbmPools flat)) (E := fun _ => True)
    (fun _ _ _ _ hp hview => ⟨reserveStep_contents hI hp hview, fun _ _ => trivial⟩) hh hp).1

end CacheState

namespace BlockPool

/-! ### Runs in which every `Ready` block is indexed -/

section Runs

variable [Xxh3] {p p' : BlockPool} {b : ℕ}

structure Indexed (p : BlockPool) : Prop where
  ready_index : ∀ b < p.numBlocks, (p.blocks b).state = .ready → p.hashToBlockId (p.blocks b).hash = some b
  ready_hashOf : ∀ b, (p.blocks b).state = .ready → HashOf (p.blocks b).hash (p.blocks b).tokenIds

/-- References, tables and queues do not matter. -/
theorem Indexed.congr (hp : p.Indexed) (hn : p'.numBlocks = p.numBlocks)
    (hmeta : ∀ b, (p'.blocks b).state = (p.blocks b).state ∧ (p'.blocks b).hash = (p.blocks b).hash ∧
      (p'.blocks b).tokenIds = (p.blocks b).tokenIds)
    (hindex : p'.hashToBlockId = p.hashToBlockId) : p'.Indexed where
  ready_index := by
    intro b hb hready
    obtain ⟨hstate, hhash, -⟩ := hmeta b
    rw [hindex, hhash]
    exact hp.ready_index b (hn ▸ hb) (hstate ▸ hready)
  ready_hashOf := by
    intro b hready
    obtain ⟨hstate, hhash, htokens⟩ := hmeta b
    rw [hhash, htokens]
    exact hp.ready_hashOf b (hstate ▸ hready)

theorem Indexed.touchReadyHash (hp : p.Indexed) (h : ℤ) : (p.touchReadyHash h).Indexed :=
  hp.congr (touchReadyHash_numBlocks p h) (fun b => by simp) (touchReadyHash_hashToBlockId p h)

/-- A `Ready` block that is taken loses its own entry. -/
theorem Indexed.allocate {evicted : Option EvictedBlock} (hp : p.Indexed)
    (h : p.allocateFreshWithEviction = (.ok (b, evicted), p')) : p'.Indexed := by
  obtain ⟨hfresh, hstate, -⟩ := allocateFreshWithEviction_fresh h
  obtain ⟨-, hsame, hindex⟩ := allocateFreshWithEviction_index h
  have hother : ∀ c, (p'.blocks c).state = .ready → p'.blocks c = p.blocks c := by
    intro c hready
    refine hfresh.blocks c fun hcb => ?_
    rw [hcb, hstate] at hready
    cases hready
  refine ⟨fun c hc hready => ?_, fun c hready => ?_⟩
  · have hcb : c ≠ b := by
      rintro rfl
      rw [hstate] at hready
      cases hready
    have heq := hother c hready
    rw [heq] at hready ⊢
    have hentry := hp.ready_index c (hfresh.numBlocks ▸ hc) hready
    cases he : p.evictedReadyMeta b with
    | none => rwa [hsame he]
    | some e =>
      -- both blocks `Ready` under one hash would have one entry
      have hne : (p.blocks c).hash ≠ e.hash := by
        intro hhash
        obtain ⟨hlt, hready', heq', -⟩ := evictedReadyMeta_some he
        have hentry' := hp.ready_index b hlt hready'
        rw [← heq', ← hhash, hentry] at hentry'
        exact hcb (Option.some.inj hentry')
      rw [hindex e he, Function.update_of_ne hne]
      exact hentry
  · have heq := hother c hready
    rw [heq] at hready ⊢
    exact hp.ready_hashOf c hready

/-- Block `b` is recorded under `h`, where no other block is. -/
theorem Indexed.record {h : ℤ} (hp : p.Indexed) (hn : p'.numBlocks = p.numBlocks)
    (hothers : ∀ c, c ≠ b → p'.blocks c = p.blocks c) (hhash : (p'.blocks b).hash = h)
    (hhashOf : HashOf h (p'.blocks b).tokenIds) (hindex : p'.hashToBlockId = Function.update p.hashToBlockId h (some b))
    (hown : ∀ c < p.numBlocks, c ≠ b → (p.blocks c).state = .ready → (p.blocks c).hash ≠ h) : p'.Indexed where
  ready_index := by
    intro c hc hready
    rw [hindex]
    by_cases hcb : c = b
    · rw [hcb, hhash, Function.update_self]
    · rw [hothers c hcb] at hready ⊢
      rw [Function.update_of_ne (hown c (hn ▸ hc) hcb hready)]
      exact hp.ready_index c (hn ▸ hc) hready
  ready_hashOf := by
    intro c hready
    by_cases hcb : c = b
    · rw [hcb, hhash]
      exact hhashOf
    · rw [hothers c hcb] at hready ⊢
      exact hp.ready_hashOf c hready

/-- A prefix is promoted after the lookup has missed. -/
theorem Indexed.promote {evicted : Option EvictedBlock} {h : ℤ} {view : List ℤ}
    (hash : HashInjective) (hp : p.Indexed)
    (hview : HashOf h view) (hmiss : p.lookupReadyBlock h view = none)
    (halloc : p.allocatePromotedReady h view = (.ok (b, evicted), p')) : p'.Indexed := by
  unfold allocatePromotedReady at halloc
  split at halloc
  case h_1 => cases halloc
  case h_2 c evicted' p₁ hfresh =>
    simp only [Prod.mk.injEq, Except.ok.injEq] at halloc
    obtain ⟨⟨rfl, -⟩, rfl⟩ := halloc
    have hf := (allocateFreshWithEviction_fresh hfresh).1
    refine Indexed.touchReadyHash ((hp.allocate hfresh).record (b := c) (h := h) ?_ ?_ ?_ ?_ ?_ ?_) h
    · rfl
    · exact fun d hd => Function.update_of_ne hd _ _
    · simp [setBlock]
    · simpa [setBlock] using hview
    · rfl
    · intro d hd hdc hready hhash
      rw [hf.blocks d hdc] at hready hhash
      have hlt : d < p.numBlocks := hf.numBlocks ▸ hd
      have hindex := hp.ready_index d hlt hready
      -- the block has the tokens of the view, so the lookup would have found it
      obtain ⟨views, hviews⟩ := hp.ready_hashOf d hready
      obtain ⟨views', hviews'⟩ := hview
      have htokens := (hash.inj ((hviews.symm.trans hhash).trans hviews')).1
      rw [lookupReadyBlock_eq_some hlt (hhash ▸ hindex) hready hhash htokens] at hmiss
      cases hmiss

theorem indexed_contents (hash : HashInjective) : Contents Indexed where
  congr := Indexed.congr
  allocate := Indexed.allocate
  promote := Indexed.promote hash

/-- The pool after an operation, also after one that fails. -/
def hbmAfter (p : BlockPool) : HbmOp → Option BlockPool
  | .ensureBlocks seqId tokenIds tokens usePrefixCache => some (p.ensureBlocks seqId tokenIds tokens usePrefixCache).2
  | .reserve c flat seqId tokenIds blockSize neededBlocks hostEnabled =>
    if p.hasSeq seqId then none
    else match CacheState.reserveLoop flat seqId tokenIds blockSize hostEnabled neededBlocks 0 (-1) false
        (c.setHbmPool flat p) with
      | (.ok blocks, c) => some ((c.hbmPools flat).insertSeqBlocks seqId blocks)
      | (.error _, c) => some (c.hbmPools flat)
  | op => p.hbmNext op

def hbmOutcomes : System BlockPool HbmOp where
  initial p := ∃ numBlocks blockSize, p = BlockPool.new numBlocks blockSize
  next := hbmAfter

/-- The index has no other block under the hashes of the full blocks of the table, from block `blockIdx` on. -/
def ownHashes (p : BlockPool) (tokenIds : List ℤ) : List ℕ → ℕ → ℤ → Bool
  | [], _, _ => true
  | blockId :: table, blockIdx, h =>
    let view := blockView p.blockSize tokenIds blockIdx
    let h := computeBlockHash view h
    if view.length ≠ p.blockSize then true
    else decide (p.hashToBlockId h = none ∨ p.hashToBlockId h = some blockId) &&
      p.ownHashes tokenIds table (blockIdx + 1) h

/-- No block is recorded under a hash that the index has for another block. -/
def recordsOwn (p : BlockPool) : HbmOp → Bool
  | .commitReady seqId tokenIds committedTokens =>
    p.ownHashes tokenIds ((p.table seqId).take (max committedTokens 0 / p.blockSize).toNat) 0 (-1)
  | _ => true

/-- Only the entries under hashes of longer prefixes matter for the blocks further on. -/
theorem ownHashes_congr {p p' : BlockPool} {tokenIds : List ℤ} (hsize : p'.blockSize = p.blockSize) (n : ℕ)
    (hindex : ∀ longer : List (List ℤ), n < longer.length → p'.hashToBlockId (prefixHash longer) =
      p.hashToBlockId (prefixHash longer)) (table : List ℕ) (blockIdx : ℕ) (views :
        List (List ℤ)) (hn : n ≤ views.length) :
    p'.ownHashes tokenIds table blockIdx (prefixHash views) =
      p.ownHashes tokenIds table blockIdx (prefixHash views) := by
  induction table generalizing blockIdx views with
  | nil => rfl
  | cons b table ih =>
    unfold ownHashes
    dsimp only
    rw [hsize, ← prefixHash_append, hindex _ (by rw [List.length_append, List.length_singleton]; omega),
      ih _ _ (by rw [List.length_append]; omega)]

theorem Indexed.commitLoop (hash : HashInjective) {p : BlockPool} (hp : p.Indexed)
    (tokenIds : List ℤ) (table : List ℕ)
    (blockIdx : ℕ) (views : List (List ℤ)) (hown : p.ownHashes tokenIds table blockIdx (prefixHash views) = true) :
    (BlockPool.commitLoop tokenIds table blockIdx (prefixHash views) p).Indexed := by
  induction table generalizing p blockIdx views with
  | nil => exact hp
  | cons b table ih =>
    unfold BlockPool.commitLoop
    unfold ownHashes at hown
    dsimp only at hown ⊢
    generalize hview : blockView p.blockSize tokenIds blockIdx = view at hown ⊢
    split
    case isTrue => exact hp
    case isFalse hfull =>
      rw [if_neg hfull, ← prefixHash_append, Bool.and_eq_true, decide_eq_true_eq] at hown
      rw [← prefixHash_append]
      obtain ⟨hentry, hrest⟩ := hown
      have hhashOf : HashOf (prefixHash (views ++ [view])) view := ⟨views, prefixHash_append views view⟩
      -- a block recorded under the hash would have the entry
      have hothers : ∀ c < p.numBlocks, c ≠ b → (p.blocks c).state = .ready →
          (p.blocks c).hash ≠ prefixHash (views ++ [view]) := by
        intro c hc hcb hready heq
        have hindex := hp.ready_index c hc hready
        rw [heq] at hindex
        rcases hentry with hnone | hsome
        · rw [hnone] at hindex
          cases hindex
        · rw [hsome] at hindex
          exact hcb (Option.some.inj hindex).symm
      have hlonger : ∀ longer : List (List ℤ), (views ++ [view]).length < longer.length →
          Function.update p.hashToBlockId (prefixHash (views ++ [view])) (some b) (prefixHash longer) =
            p.hashToBlockId (prefixHash longer) := by
        intro longer hlen
        refine Function.update_of_ne (fun heq => ?_) _ _
        rw [hash.prefixHash_inj _ _ heq] at hlen
        exact lt_irrefl _ hlen
      split
      case h_1 => exact ih hp _ _ hrest
      case h_2 m hm =>
        obtain ⟨hlt, rfl⟩ : b < p.numBlocks ∧ p.blocks b = m := by
          unfold getBlock at hm
          split at hm
          case isTrue hlt => exact ⟨hlt, Option.some.inj hm⟩
          case isFalse => cases hm
        split
        case isTrue hmatch =>
          unfold BlockMeta.readyMatches at hmatch
          simp only [Bool.and_eq_true, decide_eq_true_eq] at hmatch
          have hrecord : Indexed { p with
              hashToBlockId := Function.update p.hashToBlockId (prefixHash (views ++ [view])) (some b) } :=
            hp.record rfl (fun c _ => rfl) hmatch.1.2 (by rwa [hmatch.2]) rfl hothers
          refine ih hrecord _ _ ?_
          refine (ownHashes_congr (p := p) ?_ _ (fun longer hlen => ?_) _ _ _ le_rfl).trans hrest
          · rfl
          · exact hlonger longer hlen
        case isFalse =>
          have hrecord : Indexed { p.setBlock b { p.blocks b with
                hash := prefixHash (views ++ [view])
                tokenIds := view
                state := .ready } with
              hashToBlockId := Function.update p.hashToBlockId (prefixHash (views ++ [view])) (some b) } :=
            hp.record rfl (fun c hc => Function.update_of_ne hc _ _) (by simp [setBlock])
              (by simpa [setBlock] using hhashOf)
              rfl hothers
          refine ih (hrecord.touchReadyHash _) _ _ ?_
          refine (ownHashes_congr (p := p) ?_ _ (fun longer hlen => ?_) _ _ _ le_rfl).trans hrest
          · simp [setBlock]
          · rw [touchReadyHash_hashToBlockId]
            exact hlonger longer hlen

theorem indexed_invariant (hash : HashInjective) : Invariant hbmOutcomes recordsOwn Indexed where
  initial := by
    rintro p ⟨numBlocks, blockSize, rfl⟩
    exact ⟨fun b _ hready => (by cases hready), fun b hready => (by cases hready)⟩
  next := by
    intro p op p' hp hown hnext
    have hnext : p.hbmAfter op = some p' := hnext
    cases op with
    | ensureBlocks seqId tokenIds tokens usePrefixCache =>
      cases hnext
      exact (indexed_contents hash).ensureBlocks hp seqId tokenIds tokens usePrefixCache
    | reserve c flat seqId tokenIds blockSize neededBlocks hostEnabled =>
      have hloop : ((CacheState.reserveLoop flat seqId tokenIds blockSize hostEnabled neededBlocks 0 (-1) false
          (c.setHbmPool flat p)).2.hbmPools flat).Indexed :=
        CacheState.reserveLoop_contents (indexed_contents hash) (fun _ => prefixHash_nil.symm)
          (by rwa [CacheState.setHbmPool_self])
      rw [hbmAfter] at hnext
      split at hnext
      case isTrue => cases hnext
      case isFalse =>
        split at hnext
        case h_1 blocks c₁ h =>
          cases hnext
          rw [h] at hloop
          exact (indexed_contents hash).insertSeqBlocks hloop seqId blocks
        case h_2 e c₁ h =>
          cases hnext
          rw [h] at hloop
          exact hloop
    | commitReady seqId tokenIds committedTokens =>
      cases hnext
      have hown : p.ownHashes tokenIds ((p.table seqId).take (max committedTokens 0 / p.blockSize).toNat) 0
        (prefixHash []) = true := hown
      unfold BlockPool.commitReady
      split
      case h_1 => exact hp
      case h_2 table htable =>
        have htab : p.table seqId = table := by
          unfold BlockPool.table
          rw [htable]
          rfl
        rw [htab] at hown
        exact hp.commitLoop hash tokenIds _ 0 [] hown
    | lookup h tokens =>
      cases hnext
      exact (indexed_contents hash).lookup hp h tokens
    | removeSeq seqId =>
      cases hnext
      exact (indexed_contents hash).removeSeq hp seqId
    | setPrefixCachingEnabled enabled =>
      cases hnext
      exact hp.congr rfl (fun _ => ⟨rfl, rfl, rfl⟩) rfl

theorem Indexed.ownEntry {p : BlockPool} (hp : p.Indexed) : p.OwnEntry := by
  intro b _ e he c hc
  obtain ⟨hlt, hready, hhash, -⟩ := evictedReadyMeta_some he
  have hindex := hp.ready_index b hlt hready
  rw [← hhash, Option.mem_def.1 hc] at hindex
  exact Option.some.inj hindex

/-- **An allocation removes its own entry**: exactly if the block it takes is not `Ready` or the index has no other
block under its hash.  So it is in every run that records no block under the hash of another one, and there every
`Ready` block is found. -/
theorem evicts_own_entry :
    (∀ p : BlockPool, p.EvictsOwn ↔ p.OwnEntry) ∧
      (HashInjective → ∀ p, Reachable hbmOutcomes recordsOwn p →
        p.EvictsOwn ∧ ∀ b < p.numBlocks, (p.blocks b).state = .ready →
          p.lookupReadyBlock (p.blocks b).hash (p.blocks b).tokenIds = some b) := by
  refine ⟨evictsOwn_iff, fun hash p hreach => ?_⟩
  have hp := (indexed_invariant hash).holds hreach
  refine ⟨(evictsOwn_iff p).2 hp.ownEntry, fun b hb hready => ?_⟩
  exact lookupReadyBlock_eq_some hb (hp.ready_index b hb hready) hready rfl rfl

end Runs

section witness

attribute [local instance] codeHash

/-- Two sequences compute one prefix at the same time and record it; the first is released and its block is taken. -/
theorem not_evictsOwn : ∃ p, Reachable hbmOutcomes always p ∧ ¬ p.EvictsOwn := by
  obtain ⟨p, hreach, hp⟩ := Reachable.exists_of_run (T := hbmOutcomes) (G := always)
    (P := fun p : BlockPool => decide (p.freeBlocks.head? = some 0 ∧ (p.evictedReadyMeta 0).map EvictedBlock.hash =
      some (computeBlockHash [5] (-1)) ∧ p.hashToBlockId (computeBlockHash [5] (-1)) = some 1))
        (s := BlockPool.new 2 1)
    [.ensureBlocks 1 [5] 1 true, .ensureBlocks 2 [5] 1 true, .commitReady 1 [5] 1, .commitReady 2 [5] 1, .removeSeq 1]
    ⟨2, 1, rfl⟩ (by decide +kernel)
  refine ⟨p, hreach, fun hevicts => ?_⟩
  obtain ⟨hhead, hevicted, hindex⟩ := of_decide_eq_true hp
  obtain ⟨e, he, hhash⟩ := Option.map_eq_some_iff.1 hevicted
  have hone := (evictsOwn_iff p).1 hevicts 0 hhead e he 1 (hhash ▸ hindex)
  cases hone

/-- Without the second commit every block that is taken has its own entry. -/
theorem evicts_own_entry_released :
    ∃ p, Reachable hbmOutcomes recordsOwn p ∧ p.EvictsOwn ∧ (p.evictedReadyMeta 0).isSome := by
  obtain ⟨p, hreach, hp⟩ := Reachable.exists_of_run (T := hbmOutcomes) (G := recordsOwn)
    (P := fun p : BlockPool => (p.evictedReadyMeta 0).isSome) (s := BlockPool.new 2 1)
    [.ensureBlocks 1 [5] 1 true, .ensureBlocks 2 [5] 1 true, .commitReady 1 [5] 1, .removeSeq 1] ⟨2, 1, rfl⟩
    (by decide +kernel)
  exact ⟨p, hreach, (evicts_own_entry.2 hashInjective_codeHash p hreach).1, hp⟩

end witness

end BlockPool

end NanoEngine
