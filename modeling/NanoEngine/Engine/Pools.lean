import NanoEngine.Cache.Release
import NanoEngine.Engine.PoolRule

/-!
# NanoEngine.Engine.Pools — references are counted in every reachable state

* `CacheState.PoolsCounted`: all HBM and host pools are `Counted`.
* `pools_counted`: it holds along every run of the engine, also after failed `schedule` calls.
-/

namespace NanoEngine

open Transition

namespace CacheState

def PoolsCounted (c : CacheState) : Prop := ∀ flat, (c.hbmPools flat).Counted [] ∧ (c.hostPools flat).Counted []

/-- All pools are counted while the blocks `held` of one HBM pool are on their way into a table. -/
structure CountedAt (c : CacheState) (flat : ℕ) (held : List ℕ) : Prop where
  here : (c.hbmPools flat).Counted held
  others : c.PoolsCounted

variable {c : CacheState} {flat : ℕ} {held : List ℕ}

namespace PoolsCounted

theorem setHbmPool (hc : c.PoolsCounted) {p : BlockPool} (hp : p.Counted []) : (c.setHbmPool flat p).PoolsCounted := by
  intro f
  refine ⟨?_, (hc f).2⟩
  show (Function.update c.hbmPools flat p f).Counted []
  by_cases hf : f = flat
  · subst hf
    rwa [Function.update_self]
  · rw [Function.update_of_ne hf]
    exact (hc f).1

theorem setHostPool (hc : c.PoolsCounted) {p : BlockPool} (hp : p.Counted []) :
    (c.setHostPool flat p).PoolsCounted := by
  intro f
  refine ⟨(hc f).1, ?_⟩
  show (Function.update c.hostPools flat p f).Counted []
  by_cases hf : f = flat
  · subst hf
    rwa [Function.update_self]
  · rw [Function.update_of_ne hf]
    exact (hc f).2

theorem removeHbmSeq (hc : c.PoolsCounted) (flat seqId : ℕ) : (c.removeHbmSeq flat seqId).PoolsCounted :=
  hc.setHbmPool ((hc flat).1.removeSeq seqId)

theorem removeHostSeq (hc : c.PoolsCounted) (flat seqId : ℕ) : (c.removeHostSeq flat seqId).PoolsCounted :=
  hc.setHostPool ((hc flat).2.removeSeq seqId)

theorem releaseSeq (hc : c.PoolsCounted) (seqId group : ℕ) : (c.releaseSeq seqId group).PoolsCounted := by
  intro f
  rw [releaseSeq_hbmPools, releaseSeq_hostPools]
  refine ⟨?_, (hc f).2.removeSeq seqId⟩
  split
  case isTrue => exact (hc f).1.removeSeq seqId
  case isFalse => exact (hc f).1

theorem setPrefixCachingEnabled (hc : c.PoolsCounted) (enabled : Bool) :
    (c.setPrefixCachingEnabled enabled).PoolsCounted :=
  fun f => ⟨(hc f).1.congr rfl (fun _ => rfl) (List.Sublist.refl _),
    (hc f).2.congr rfl (fun _ => rfl) (List.Sublist.refl _)⟩

theorem writeBackEvictedPrefix (hc : c.PoolsCounted) (flat : ℕ) (evicted : Option EvictedBlock) (hostEnabled : Bool) :
    (c.writeBackEvictedPrefix flat evicted hostEnabled).2.PoolsCounted := by
  unfold CacheState.writeBackEvictedPrefix
  split
  case h_1 => exact hc
  case h_2 e =>
    split
    case isFalse => exact hc
    case isTrue =>
      have hstore := (hc flat).2.storeReadyCacheBlock e.hash e.tokenIds
      split
      case h_1 err p heq =>
        rw [heq] at hstore
        exact hc.setHostPool hstore
      case h_2 b p heq =>
        rw [heq] at hstore
        exact hc.setHostPool hstore

variable [Xxh3]

theorem ensureHbmBlocks (hc : c.PoolsCounted) (flat seqId : ℕ) (tokenIds : List ℤ) (tokens : ℤ)
    (usePrefixCache : Bool) :
    (c.ensureHbmBlocks flat seqId tokenIds tokens usePrefixCache).2.PoolsCounted :=
  hc.setHbmPool ((hc flat).1.ensureBlocks seqId tokenIds tokens usePrefixCache)

theorem ensureHostBlocks (hc : c.PoolsCounted) (flat seqId : ℕ) (tokenIds : List ℤ) (tokens : ℤ)
    (usePrefixCache : Bool) :
    (c.ensureHostBlocks flat seqId tokenIds tokens usePrefixCache).2.PoolsCounted :=
  hc.setHostPool ((hc flat).2.ensureBlocks seqId tokenIds tokens usePrefixCache)

theorem matchedLoop (hc : c.PoolsCounted) (flat : ℕ) (tokenIds : List ℤ) (blockSize n blockIdx : ℕ) (hash : ℤ) :
    (CacheState.matchedLoop flat tokenIds blockSize n blockIdx hash c).2.PoolsCounted := by
  induction n generalizing blockIdx hash c with
  | zero => exact hc
  | succ n ih =>
    rw [CacheState.matchedLoop]
    dsimp only
    split
    case isTrue => exact hc
    case isFalse =>
      generalize computeBlockHash (blockView blockSize tokenIds blockIdx) hash = h
      have hhbm := @setHbmPool _ flat hc _ ((hc flat).1.lookup h (blockView blockSize tokenIds blockIdx))
      split
      case isTrue => exact ih hhbm _ _
      case isFalse =>
        have hhost := @setHostPool _ flat hhbm _ ((hhbm flat).2.lookup h (blockView blockSize tokenIds blockIdx))
        split
        case isTrue => exact ih hhost _ _
        case isFalse => exact hhost

end PoolsCounted

/-! ## The reserve loop -/

namespace CountedAt

theorem setHbmPool {held' : List ℕ} (hc : c.CountedAt flat held) {p : BlockPool} (hp : p.Counted held') :
    (c.setHbmPool flat p).CountedAt flat held' :=
  ⟨by rw [setHbmPool_self]; exact hp, hc.others.setHbmPool hp.drop⟩

theorem setHostPool (hc : c.CountedAt flat held) {p : BlockPool} (hp : p.Counted []) :
    (c.setHostPool flat p).CountedAt flat held :=
  ⟨hc.here, hc.others.setHostPool hp⟩

theorem writeBackEvictedPrefix (hc : c.CountedAt flat held) (evicted : Option EvictedBlock) (hostEnabled : Bool) :
    (c.writeBackEvictedPrefix flat evicted hostEnabled).2.CountedAt flat held :=
  ⟨by rw [writeBackEvictedPrefix_hbmPools]; exact hc.here,
    hc.others.writeBackEvictedPrefix flat evicted hostEnabled⟩

/-- What a step of the loop takes is held; a step that fails may hold a block, too. -/
def Taken (flat : ℕ) (held : List ℕ) (r : Except PyErr ℕ) (c' : CacheState) : Prop :=
  c'.CountedAt flat held ∧ ∀ b, r = .ok b → c'.CountedAt flat (b :: held)

theorem reserveFresh (hc : c.CountedAt flat held) (hostEnabled : Bool) :
    Taken flat held (c.reserveFresh flat hostEnabled).1 (c.reserveFresh flat hostEnabled).2 := by
  unfold CacheState.reserveFresh
  split
  case h_1 e p heq =>
    obtain rfl := BlockPool.allocateFreshWithEviction_error heq
    exact ⟨hc.setHbmPool hc.here, fun b hb => by cases hb⟩
  case h_2 b evicted p heq =>
    have htaken := hc.setHbmPool (hc.here.fresh (BlockPool.allocateFreshWithEviction_fresh heq).1)
    have hwrite := htaken.writeBackEvictedPrefix evicted hostEnabled
    have hdrop : ∀ {c' : CacheState}, c'.CountedAt flat (b :: held) → c'.CountedAt flat held := fun h =>
      ⟨h.here.mono fun d => by rw [Counting.count_cons_eq]; omega, h.others⟩
    split
    case h_1 e c' hc' =>
      rw [hc'] at hwrite
      exact ⟨hdrop hwrite, fun b hb => by cases hb⟩
    case h_2 c' hc' =>
      rw [hc'] at hwrite
      refine ⟨hdrop hwrite, fun b' hb' => ?_⟩
      cases hb'
      exact hwrite

theorem reservePromoted (hc : c.CountedAt flat held) (seqId : ℕ) (hash : ℤ) (view : List ℤ) (hostBlock : ℕ)
    (hostEnabled : Bool) : Taken flat held (c.reservePromoted flat seqId hash view hostBlock hostEnabled).1
      (c.reservePromoted flat seqId hash view hostBlock hostEnabled).2 := by
  unfold CacheState.reservePromoted
  split
  case h_1 e p heq =>
    have hp : p = c.hbmPools flat := by
      unfold BlockPool.allocatePromotedReady at heq
      split at heq
      case h_1 e' p' hfresh =>
        obtain rfl := BlockPool.allocateFreshWithEviction_error hfresh
        exact (Prod.mk.inj heq).2.symm
      case h_2 => cases heq
    exact ⟨hc.setHbmPool (hp ▸ hc.here), fun b hb => by cases hb⟩
  case h_2 b evicted p heq =>
    have htaken := hc.setHbmPool (hc.here.fresh (BlockPool.allocatePromotedReady_fresh heq).1)
    have hwrite := htaken.writeBackEvictedPrefix evicted hostEnabled
    have hdrop : ∀ {c' : CacheState}, c'.CountedAt flat (b :: held) → c'.CountedAt flat held := fun h =>
      ⟨h.here.mono fun d => by rw [Counting.count_cons_eq]; omega, h.others⟩
    split
    case h_1 e c' hc' =>
      rw [hc'] at hwrite
      exact ⟨hdrop hwrite, fun b hb => by cases hb⟩
    case h_2 c' hc' =>
      rw [hc'] at hwrite
      refine ⟨hdrop ⟨hwrite.here, hwrite.others⟩, fun b' hb' => ?_⟩
      cases hb'
      exact ⟨hwrite.here, hwrite.others⟩

theorem reserveRetained (hc : c.CountedAt flat held) (b : ℕ) :
    Taken flat held (c.reserveRetained flat b).1 (c.reserveRetained flat b).2 := by
  unfold CacheState.reserveRetained
  split
  case h_1 e p heq =>
    obtain rfl := BlockPool.Counted.retainBlock_error heq
    exact ⟨hc.setHbmPool hc.here, fun b hb => by cases hb⟩
  case h_2 p heq =>
    have htaken := hc.setHbmPool (hc.here.retainBlock heq)
    refine ⟨⟨htaken.here.mono fun d => by rw [Counting.count_cons_eq]; omega, htaken.others⟩, fun b' hb' => ?_⟩
    cases hb'
    exact htaken

theorem reserveStep (hc : c.CountedAt flat held) (seqId : ℕ) (hash : ℤ) (view : List ℤ)
    (lookup hostEnabled : Bool) :
    Taken flat held (c.reserveStep flat seqId hash view lookup hostEnabled).1
      (c.reserveStep flat seqId hash view lookup hostEnabled).2.2 := by
  unfold CacheState.reserveStep
  split
  case isFalse => exact hc.reserveFresh hostEnabled
  case isTrue =>
    have hhbm := hc.setHbmPool (hc.here.lookup hash view)
    dsimp only
    split
    case h_1 b _ => exact hhbm.reserveRetained b
    case h_2 =>
      have hhost := hhbm.setHostPool ((hhbm.others flat).2.lookup hash view)
      split
      case h_1 b _ => exact hhost.reservePromoted seqId hash view b hostEnabled
      case h_2 => exact hhost.reserveFresh hostEnabled

/-- The loop leaves counted pools; what it returns is held. -/
theorem reserveLoop [Xxh3] (hc : c.CountedAt flat held) (seqId : ℕ) (tokenIds : List ℤ) (blockSize : ℕ)
    (hostEnabled : Bool) (n blockIdx : ℕ) (hash : ℤ) (cacheMiss : Bool) :
    (CacheState.reserveLoop flat seqId tokenIds blockSize hostEnabled n blockIdx hash cacheMiss c).2.PoolsCounted ∧
      ∀ blocks, (CacheState.reserveLoop flat seqId tokenIds blockSize hostEnabled n blockIdx hash cacheMiss c).1 =
        .ok blocks → (CacheState.reserveLoop flat seqId tokenIds blockSize hostEnabled n blockIdx hash cacheMiss
          c).2.CountedAt flat (blocks ++ held) := by
  -- what the loop has taken so far moves into `held`
  induction n generalizing c held blockIdx hash cacheMiss with
  | zero =>
    refine ⟨hc.others, fun blocks hb => ?_⟩
    cases hb
    exact hc
  | succ n ih =>
    rw [CacheState.reserveLoop]
    generalize hstep : c.reserveStep flat seqId _ _ _ hostEnabled = r
    obtain ⟨r, miss, c₁⟩ := r
    have htaken : Taken flat held r c₁ := by
      have h :=
        hc.reserveStep seqId (if (decide ((blockView blockSize tokenIds blockIdx).length = blockSize) && !cacheMiss)
        = true then computeBlockHash (blockView blockSize tokenIds blockIdx) hash else hash)
        (blockView blockSize tokenIds blockIdx)
        (decide ((blockView blockSize tokenIds blockIdx).length = blockSize) && !cacheMiss) hostEnabled
      rw [hstep] at h
      exact h
    cases r with
    | error e => exact ⟨htaken.1.others, fun blocks hb => by cases hb⟩
    | ok b =>
      dsimp only
      obtain ⟨hall, hok⟩ := ih (htaken.2 b rfl) (blockIdx + 1)
        (if (decide ((blockView blockSize tokenIds blockIdx).length =
        blockSize) && !cacheMiss) = true then
          computeBlockHash (blockView blockSize tokenIds blockIdx) hash else hash) miss
      split
      case h_1 e c₂ heq =>
        rw [heq] at hall
        exact ⟨hall, fun blocks hb => by cases hb⟩
      case h_2 blocks c₂ heq =>
        rw [heq] at hall hok
        refine ⟨hall, fun blocks' hb => ?_⟩
        cases hb
        obtain ⟨hhere, hothers⟩ := hok blocks rfl
        exact ⟨hhere.mono fun d => (List.perm_middle.symm.count_eq d).le, hothers⟩

end CountedAt

end CacheState

/-! ## Runs -/

theorem poolsCounted_rule [Xxh3] (config : SchedulerConfig) : PoolRule config CacheState.PoolsCounted where
  congr _ _ hhbm hhost h f := by
    rw [hhbm, hhost]
    exact h f
  init _ := ⟨(BlockPool.counted_new config.numKvcacheBlocks config.kvcacheBlockSize).congr rfl (fun _ => rfl)
      (List.Sublist.refl _),
    (BlockPool.counted_new config.numHostKvcacheBlocks config.kvcacheBlockSize).congr rfl (fun _ => rfl)
      (List.Sublist.refl _)⟩
  setPrefixCachingEnabled _ enabled h := h.setPrefixCachingEnabled enabled
  releaseSeq _ seqId h := h.releaseSeq seqId _
  removeHbmSeq _ flat seqId h := h.removeHbmSeq flat seqId
  removeHostSeq _ flat seqId h := h.removeHostSeq flat seqId
  ensureHbmBlocks _ _ flat seqId tokenIds tokens usePrefixCache r heq h := by
    have hens := h.ensureHbmBlocks flat seqId tokenIds tokens usePrefixCache
    rwa [heq] at hens
  ensureHostBlocks _ _ flat seqId tokens r heq h := by
    have hens := h.ensureHostBlocks flat seqId [] tokens false
    rwa [heq] at hens
  matchedLoop _ flat tokenIds needed h := h.matchedLoop flat tokenIds _ needed 0 (-1)
  reserveFailed c _ flat seqId tokenIds hostEnabled needed e heq h := by
    have hloop :=
      (CacheState.CountedAt.reserveLoop (c := c) ⟨(h flat).1, h⟩ seqId tokenIds config.blockSize hostEnabled
      needed 0 (-1) false).1
    rwa [heq] at hloop
  reserved c _ flat seqId tokenIds hostEnabled needed blocks heq h := by
    have hloop :=
      (CacheState.CountedAt.reserveLoop (c := c) ⟨(h flat).1, h⟩ seqId tokenIds config.blockSize hostEnabled
      needed 0 (-1) false).2 blocks
    rw [heq] at hloop
    obtain ⟨hhere, hothers⟩ := hloop rfl
    exact hothers.setHbmPool (hhere.insertSeqBlocks seqId)
  commitReady _ flat seqId tokenIds committedTokens h :=
    h.setHbmPool ((h flat).1.commitReady seqId tokenIds committedTokens)

/-- **References are counted in every reachable state.** -/
theorem pools_counted [Xxh3] {config : SchedulerConfig} {x : EngineState}
    (hx : Reachable (engineSystem config) always x) : PoolInv config CacheState.PoolsCounted x.sched :=
  (((poolsCounted_rule config).engineRule _ _ _).holds hx).holds

end NanoEngine
