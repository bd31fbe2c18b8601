import NanoEngine.Cache.EnsureBlocks
import NanoEngine.Cache.WriteBack
import NanoEngine.Engine.Pools
import NanoEngine.Slots.Schedule

/-!
# NanoEngine.Failures.HostRoom — admissions that fail for want of room on the host

`write_back_evicted_prefix` is called after the HBM block has been taken, and its error ends the admission.

* `hosted_rule`: in every reachable state the host pools are in order and what HBM evicts can be stored.
* `HostRoom`: no write-back of the admission finds a host pool without a free and without an evictable block.
* `tryAllocatePrefill_hostRoom`: with enough HBM blocks, slots and pages, exactly then the sequence is admitted.
-/

namespace NanoEngine

open Transition

/-! ## Reachable pools -/

namespace BlockPool

variable [Xxh3] {p : BlockPool}

/-- Growing a table or making a new one without the prefix cache, also when blocks are missing. -/
theorem Kept.ensureFresh {I : BlockPool → List ℕ → Prop} (hI : Kept I) {held : List ℕ}
    (hp : I p held) (seqId : ℕ)
    (tokenIds : List ℤ) (tokens : ℤ) : I (p.ensureBlocks seqId tokenIds tokens false).2 held := by
  unfold BlockPool.ensureBlocks
  dsimp only
  split
  case isTrue => exact hI.growExisting hp seqId (p.numBlocksForTokens tokens)
  case isFalse hnew =>
    -- without the prefix cache the plan asks for a fresh block everywhere
    have hplan : p.planNewBlocks tokenIds (p.numBlocksForTokens tokens) false = List.replicate
      (p.numBlocksForTokens tokens) none :=
      planLoop_miss p tokenIds _ 0 (-1)
    rw [hplan]
    split
    case isTrue => exact hp
    case isFalse hfree =>
      have henough : p.numBlocksForTokens tokens ≤ p.freeBlocks.length := by
        simpa using hfree
      obtain ⟨p₁, htake⟩ := takePlan_fresh_ok henough
      obtain ⟨hinv, hn, htab, hnodup, hsub⟩ := hI.takeFresh hp htake
      rw [htake]
      refine hI.setTable hinv seqId (some _) hnodup (fun b hb => ?_) fun b => ?_
      · rw [hn]
        exact (hI.sound hp).free_lt b (hsub hb)
      · have htable : p₁.table seqId = [] := by
          unfold table
          rw [htab]
          exact table_of_not_hasSeq hnew
        rw [htable, Option.getD_some, List.count_append, List.count_nil]
        omega

theorem Host.ensureBlocks_any (hp : p.Host []) (seqId : ℕ) (tokens : ℤ) :
    (p.ensureBlocks seqId [] tokens false).2.Host [] :=
  Host.kept.ensureFresh hp seqId [] tokens

/-- A reservation without the prefix cache succeeds when table and free list are long enough; it takes the first ones.
-/
theorem ensureBlocks_enough {seqId : ℕ} {tokens : ℤ} {usePrefixCache : Bool} (tokenIds : List ℤ)
    (hplan : p.hasSeq seqId = true ∨ usePrefixCache = false)
    (hcount : p.numBlocksForTokens tokens ≤ (p.table seqId).length + p.freeBlocks.length) :
    ∃ p', p.ensureBlocks seqId tokenIds tokens usePrefixCache =
      (.ok (p.table seqId ++ p.freeBlocks.take (p.numBlocksForTokens tokens - (p.table seqId).length)), p') := by
  unfold BlockPool.ensureBlocks
  dsimp only
  split
  case isTrue hseq =>
    obtain ⟨p', hgrow, htab, -⟩ := @growLoop_ok p seqId _
      (show p.numBlocksForTokens tokens - (p.table seqId).length ≤ p.freeBlocks.length by omega)
    exact ⟨p', htab ▸ growExisting_ok hgrow⟩
  case isFalse hseq =>
    obtain rfl := hplan.resolve_left hseq
    have hplan : p.planNewBlocks tokenIds (p.numBlocksForTokens tokens) false =
        List.replicate (p.numBlocksForTokens tokens) none := planLoop_miss p tokenIds _ 0 (-1)
    rw [table_of_not_hasSeq hseq, List.length_nil, Nat.zero_add] at hcount
    obtain ⟨p', htake⟩ := takePlan_fresh_ok hcount
    rw [hplan, if_neg (by simpa using hcount), htake, table_of_not_hasSeq hseq]
    exact ⟨_, rfl⟩

/-- Without enough blocks it fails. -/
theorem ensureBlocks_short {seqId : ℕ} {tokens : ℤ}
    (hcount : (p.table seqId).length + p.freeBlocks.length < p.numBlocksForTokens tokens) :
    ∃ e p', p.ensureBlocks seqId [] tokens false = (.error e, p') := by
  unfold BlockPool.ensureBlocks
  dsimp only
  split
  case isTrue hseq =>
    obtain ⟨e, p', hgrow, -⟩ := @growLoop_error p seqId _
      (show p.freeBlocks.length < p.numBlocksForTokens tokens - (p.table seqId).length by omega)
    exact ⟨e, p', growExisting_error hgrow⟩
  case isFalse hseq =>
    have hplan : p.planNewBlocks [] (p.numBlocksForTokens tokens) false =
        List.replicate (p.numBlocksForTokens tokens) none := planLoop_miss p [] _ 0 (-1)
    rw [hplan, if_pos (by simp; omega)]
    exact ⟨_, _, rfl⟩

theorem Host.setPrefixCachingEnabled (hp : p.Host []) (enabled : Bool) : (p.setPrefixCachingEnabled enabled).Host [] :=
  ⟨hp.toSound.congr rfl (fun _ => rfl) rfl rfl hp.index_lt hp.lru_nodup, hp.ready_iff,
    hp.ready_index, hp.ready_hashOf,
    hp.index_ready, hp.lru_iff⟩

end BlockPool

open BlockPool CacheState Scheduler

section Hosted

variable [Xxh3]

theorem CacheState.Hosted.matchedLoop {c : CacheState} (hc : c.Hosted) (flat : ℕ) (tokenIds : List ℤ)
    (blockSize n blockIdx : ℕ) (h : ℤ) :
      (CacheState.matchedLoop flat tokenIds blockSize n blockIdx h c).2.Hosted := by
  induction n generalizing c blockIdx h with
  | zero => exact hc
  | succ n ih =>
    rw [CacheState.matchedLoop]
    dsimp only
    split
    case isTrue => exact hc
    case isFalse =>
      generalize computeBlockHash (blockView blockSize tokenIds blockIdx) h = k
      have hhbm :
        (c.setHbmPool flat ((c.hbmPools flat).lookupReadyPrefixBlock k
          (blockView blockSize tokenIds blockIdx)).2).Hosted :=
        hc.setHbmPool (readyHashed_contents.lookup (hc.hashed flat) k _)
      split
      case isTrue => exact ih hhbm _ _
      case isFalse =>
        have hhost := @Hosted.setHostPool _ _ flat hhbm _
          ((hhbm.host flat).lookup k (blockView blockSize tokenIds blockIdx))
        split
        case isTrue => exact ih hhost _ _
        case isFalse => exact hhost

theorem reserveLoop_hosted (hash : HashInjective) {c : CacheState} (hc : c.Hosted)
    (flat seqId : ℕ) (tokenIds : List ℤ) (blockSize : ℕ) (hostEnabled : Bool) (n : ℕ) :
    (reserveLoop flat seqId tokenIds blockSize hostEnabled n 0 (-1) false c).2.Hosted := by
  have hloop : Reserves flat c (reserveLoop flat seqId tokenIds blockSize hostEnabled n 0 (-1) false c).1
      (reserveLoop flat seqId tokenIds blockSize hostEnabled n 0 (-1) false c).2 :=
    reserveLoop_reserves hash (fun _ => prefixHash_nil.symm) hc
  exact hloop.hosted

theorem hosted_rule (hash : HashInjective) (config : SchedulerConfig) : PoolRule config Hosted where
  congr _ _ hhbm hhost h := ⟨fun f => hhost ▸ h.host f, fun f => hhbm ▸ h.hashed f⟩
  init := ⟨fun _ => (host_new config.numHostKvcacheBlocks config.kvcacheBlockSize).setPrefixCachingEnabled _,
    fun _ _ hready => by cases hready⟩
  setPrefixCachingEnabled _ enabled h := ⟨fun f => (h.host f).setPrefixCachingEnabled _, fun f => h.hashed f⟩
  releaseSeq c seqId h := by
    refine ⟨fun f => ?_, fun f => ?_⟩
    · rw [releaseSeq_hostPools]
      exact Host.kept.removeSeq (h.host f) seqId
    · rw [releaseSeq_hbmPools]
      split
      case isTrue => exact readyHashed_contents.removeSeq (h.hashed f) seqId
      case isFalse => exact h.hashed f
  removeHbmSeq _ flat seqId h := h.setHbmPool (readyHashed_contents.removeSeq (h.hashed flat) seqId)
  removeHostSeq _ flat seqId h := h.setHostPool (Host.kept.removeSeq (h.host flat) seqId)
  ensureHbmBlocks c c' flat seqId tokenIds tokens usePrefixCache r heq h := by
    cases heq
    exact h.setHbmPool (readyHashed_contents.ensureBlocks (h.hashed flat) seqId tokenIds tokens usePrefixCache)
  ensureHostBlocks c c' flat seqId tokens r heq h := by
    cases heq
    exact h.setHostPool ((h.host flat).ensureBlocks_any seqId tokens)
  matchedLoop _ flat tokenIds needed h := h.matchedLoop flat tokenIds _ needed 0 (-1)
  reserveFailed c c' flat seqId tokenIds hostEnabled needed e heq h := by
    have hloop := reserveLoop_hosted hash h flat seqId tokenIds config.blockSize hostEnabled needed
    rwa [heq] at hloop
  reserved c c' flat seqId tokenIds hostEnabled needed blocks heq h := by
    have hloop := reserveLoop_hosted hash h flat seqId tokenIds config.blockSize hostEnabled needed
    rw [heq] at hloop
    exact hloop.setHbmPool (readyHashed_contents.insertSeqBlocks (hloop.hashed flat) seqId blocks)
  commitReady _ flat seqId tokenIds committedTokens h :=
    h.setHbmPool ((h.hashed flat).commitReady seqId tokenIds committedTokens)

end Hosted

/-! ## Slots and pages -/

namespace CompressedPool

/-- The pages that the sequence has, or is to get, are there. -/
def Suffices (p : CompressedPool) (seqId : ℕ) (tokens : ℤ) : Prop :=
  p.pagesNeededForTokens tokens ≤ ((p.seqPages seqId).getD []).length + p.freePages.length

theorem takePages_ok (seqId : ℕ) {n : ℕ} {p : CompressedPool} (h : n ≤ p.freePages.length) :
    (takePages seqId n p).1 = true := by
  induction n generalizing p with
  | zero => rfl
  | succ n ih =>
    cases hfree : p.freePages with
    | nil =>
      rw [hfree] at h
      cases h
    | cons page free =>
      rw [hfree, List.length_cons] at h
      rw [takePages, hfree]
      exact ih (by dsimp only; omega)

theorem ensurePages_ok {p : CompressedPool} {seqId : ℕ} {tokens : ℤ} (h : p.Suffices seqId tokens) :
    ∃ pages p', p.ensurePages seqId tokens = (.ok pages, p') := by
  unfold Suffices at h
  unfold ensurePages
  dsimp only
  have htake : (takePages seqId (p.pagesNeededForTokens tokens - ((p.seqPages seqId).getD []).length)
      { p with seqPages := Function.update p.seqPages seqId (some ((p.seqPages seqId).getD [])) }).1 = true :=
    takePages_ok seqId (by dsimp only; omega)
  split
  case h_1 p' heq => exact ⟨_, _, rfl⟩
  case h_2 p' heq =>
    rw [heq] at htake
    cases htake

end CompressedPool

theorem CacheState.ensureCompressedLoop_ok {seqId : ℕ} {tokens : ℤ} {pools : List CompressedPool}
    (h : ∀ p ∈ pools, p.Suffices seqId tokens) :
    ∃ tables pools', ensureCompressedLoop seqId tokens pools = (.ok tables, pools') := by
  induction pools with
  | nil => exact ⟨_, _, rfl⟩
  | cons p pools ih =>
    obtain ⟨pages, p', hpages⟩ := CompressedPool.ensurePages_ok (h p List.mem_cons_self)
    obtain ⟨tables, pools', htables⟩ := ih fun q hq => h q (List.mem_cons_of_mem p hq)
    rw [ensureCompressedLoop, hpages]
    dsimp only
    rw [htables]
    exact ⟨_, _, rfl⟩

theorem SlotPool.ensure_ok {p : SlotPool} {seqId : ℕ} (h : p.canEnsure seqId = true) :
    ∃ slot, (p.ensure seqId).1 = some slot := by
  unfold SlotPool.canEnsure at h
  unfold SlotPool.ensure
  cases hs : p.seqSlots seqId with
  | some slot => exact ⟨slot, rfl⟩
  | none =>
    cases hfree : p.freeSlots with
    | nil => simp [hs, hfree] at h
    | cons slot free => exact ⟨slot, rfl⟩

namespace Scheduler

variable {s : Scheduler} {seqId dpIdx : ℕ}

theorem cacheEnsureStateSlot_ok (hassign : ∃ g, s.cache.seqAssignment seqId = some (dpIdx, g))
    (hcan : (s.config.needsMtpHandoff || s.config.cachePlan.hasState) = true →
      s.cache.canEnsureStateSlot s.dp seqId dpIdx = true) :
    ∃ s', s.cacheEnsureStateSlot seqId = (.ok (), s') := by
  unfold cacheEnsureStateSlot
  split
  case isFalse => exact ⟨s, rfl⟩
  case isTrue hstate =>
    have hcan := hcan hstate
    obtain ⟨g, hassign⟩ := hassign
    have hsome : ∃ slot, (s.cache.ensureStateSlot s.dp seqId).1 = some slot := by
      unfold CacheState.canEnsureStateSlot at hcan
      unfold CacheState.ensureStateSlot
      cases hslot : s.cache.stateSlot s.dp seqId with
      | some slot => exact ⟨slot, rfl⟩
      | none =>
        rw [hslot, Option.isSome_none, Bool.false_or] at hcan
        rw [hassign]
        exact SlotPool.ensure_ok hcan
    obtain ⟨slot, hsome⟩ := hsome
    split
    case h_1 c heq =>
      rw [heq] at hsome
      cases hsome
    case h_2 => exact ⟨_, rfl⟩

theorem cacheEnsureHisparseSlot_ok (hassign : ∃ g, s.cache.seqAssignment seqId = some (dpIdx, g))
    (hcan : s.config.cachePlan.hisparse = true → s.cache.canEnsureHisparseSlot s.dp seqId dpIdx = true) :
    ∃ s', s.cacheEnsureHisparseSlot seqId = (.ok (), s') := by
  unfold cacheEnsureHisparseSlot
  split
  case isFalse => exact ⟨s, rfl⟩
  case isTrue hhisparse =>
    have hcan := hcan hhisparse
    obtain ⟨g, hassign⟩ := hassign
    have hsome : ∃ slot, (s.cache.ensureHisparseSlot s.dp seqId).1 = some slot := by
      unfold CacheState.canEnsureHisparseSlot at hcan
      unfold CacheState.ensureHisparseSlot
      cases hslot : s.cache.hisparseSlot s.dp seqId with
      | some slot => exact ⟨slot, rfl⟩
      | none =>
        rw [hslot, Option.isSome_none, Bool.false_or] at hcan
        rw [hassign]
        exact SlotPool.ensure_ok hcan
    obtain ⟨slot, hsome⟩ := hsome
    split
    case h_1 c heq =>
      rw [heq] at hsome
      cases hsome
    case h_2 => exact ⟨_, rfl⟩

theorem cacheEnsureCompressedPages_ok {tokens : ℤ}
    (hpages : ∀ p ∈ s.cache.compressedPools, p.Suffices seqId tokens) :
    ∃ s', s.cacheEnsureCompressedPages seqId tokens = (.ok (), s') := by
  obtain ⟨tables, pools, hloop⟩ := CacheState.ensureCompressedLoop_ok hpages
  unfold cacheEnsureCompressedPages CacheState.ensureCompressedPages
  rw [hloop]
  split <;> exact ⟨_, rfl⟩

/-- Slots and pages that are there are handed out. -/
theorem cacheEnsureSlotsAndPages_ok {tokens : ℤ} (hassign : ∃ g, s.cache.seqAssignment seqId = some (dpIdx, g))
    (hslots : s.slotsExhausted seqId dpIdx = false)
    (hpages : ∀ p ∈ s.cache.compressedPools, p.Suffices seqId tokens) :
    ∃ s', s.cacheEnsureSlotsAndPages seqId tokens = (.ok (), s') := by
  unfold slotsExhausted at hslots
  rw [Bool.or_eq_false_iff, Bool.and_eq_false_imp, Bool.and_eq_false_imp] at hslots
  simp only [Bool.not_eq_false'] at hslots
  obtain ⟨s₁, hstate⟩ := cacheEnsureStateSlot_ok hassign hslots.1
  obtain ⟨hconfig, hhisparse, hpools, hassigned⟩ := cacheEnsureStateSlot_others hstate
  have hcan : s₁.config.cachePlan.hisparse = true →
    s₁.cache.canEnsureHisparseSlot s₁.dp seqId dpIdx = true := by
    intro hflag
    have h := hslots.2 (hconfig ▸ hflag)
    unfold CacheState.canEnsureHisparseSlot CacheState.hisparseSlot Scheduler.dp at h ⊢
    rwa [hhisparse, hconfig]
  obtain ⟨s₂, hslot⟩ := cacheEnsureHisparseSlot_ok (hassigned ▸ hassign) hcan
  obtain ⟨hpools₂, -⟩ := cacheEnsureHisparseSlot_others hslot
  rw [← hpools, ← hpools₂] at hpages
  obtain ⟨s₃, hlast⟩ := cacheEnsureCompressedPages_ok hpages
  unfold cacheEnsureSlotsAndPages
  rw [hstate]
  dsimp only
  rw [hslot]
  exact ⟨s₃, hlast⟩

theorem finishAdmission_ok {master : ℕ} {fullLen cached : ℤ}
    (hassign : ∃ g, s.cache.seqAssignment seqId = some (dpIdx, g))
    (hslots : s.slotsExhausted seqId dpIdx = false)
    (hpages : ∀ p ∈ s.cache.compressedPools, p.Suffices seqId fullLen) :
    ∃ s', s.finishAdmission seqId master fullLen cached = (.ok (), s') := by
  have hany : ∀ f : Sequence → Sequence, ∃ s',
    (s.updateSeq seqId f).cacheEnsureSlotsAndPages seqId fullLen = (.ok (), s') :=
    fun f => cacheEnsureSlotsAndPages_ok (s := s.updateSeq seqId f) hassign hslots hpages
  unfold finishAdmission
  dsimp only
  obtain ⟨s₁, hens⟩ := hany (fun seq =>
    if s.config.mode = .decode then { seq with activeGroupId := master }
    else { seq with activeGroupId := master, migrateGroupId := master })
  rw [hens]
  exact ⟨_, rfl⟩

/-! ## The blocks -/

variable [Xxh3]

/-- The admission reserves its blocks with the prefix cache of HBM and host. -/
def asksHost (s : Scheduler) (seqId dpIdx : ℕ) : Bool :=
  s.asksPrefixCache && !(s.cache.hbmPools (s.flatIdx dpIdx 0)).hasSeq seqId

/-- The blocks that an admission of `fullLen` tokens needs, drafts included. -/
def admissionBlocks (s : Scheduler) (fullLen : ℤ) : ℕ :=
  s.blocksNeededForTokens (fullLen + max s.config.numSpeculativeTokens 0)

/-- The `Ready` blocks of HBM that begin the prompt: the admission retains them. -/
def retainedBlocks (s : Scheduler) (seqId dpIdx : ℕ) (fullLen : ℤ) : List ℕ :=
  (s.cache.hbmPools (s.flatIdx dpIdx 0)).readyPrefix s.config.blockSize (((s.seqTable seqId).map (·.tokenIds)).getD [])
    (s.admissionBlocks fullLen) 0 (-1)

/-- The free blocks beside them, in the order in which they are taken. -/
def freeBeside (s : Scheduler) (seqId dpIdx : ℕ) (fullLen : ℤ) : List ℕ :=
  (s.cache.hbmPools (s.flatIdx dpIdx 0)).freeBlocks.filter
    (fun b => decide (b ∉ s.retainedBlocks seqId dpIdx fullLen))

/-- No write-back of the admission finds the host pool full: the pool has a block to give, or nothing that the admission
takes has to be written back. -/
def HostRoom (s : Scheduler) (seqId dpIdx : ℕ) (fullLen : ℤ) : Prop :=
  s.asksHost seqId dpIdx = true → 0 < fullLen →
    (s.cache.hostPools (s.flatIdx dpIdx 0)).HasRoom ∨
      ∀ b ∈ (s.freeBeside seqId dpIdx fullLen).take
        (s.admissionBlocks fullLen - (s.retainedBlocks seqId dpIdx fullLen).length),
        (s.cache.hbmPools (s.flatIdx dpIdx 0)).evictedReadyMeta b = none

/-- The reservation does not run out of HBM blocks. -/
def HbmSuffices (s : Scheduler) (seqId dpIdx : ℕ) (a : Admission) : Prop :=
  ∀ e, (s.reserveAdmission seqId dpIdx a).1 = .error e → e = .outOfHostKvCacheBlocks

variable {a : Admission}

/-- With one group, one reservation. -/
theorem reserveAdmission_one (seqId dpIdx : ℕ) (hgroup : s.group = 1) (hmaster : a.master = 0) :
    ∃ b : Scheduler, b.config = s.config ∧ b.cache.hbmPools = s.cache.hbmPools ∧
      b.cache.hostPools = s.cache.hostPools ∧
      b.cache.prefixCachingEnabled = s.cache.prefixCachingEnabled ∧
      (b.seqTable seqId).map (·.tokenIds) = (s.seqTable seqId).map (·.tokenIds) ∧
      (s.reserveAdmission seqId dpIdx a).1 = if 0 < a.fullLen then
        (b.cacheEnsureGroupBlocks seqId dpIdx 0 a.fullLen (decide (s.config.mode ≠ .decode))).1.map (fun _ => ())
        else .ok () := by
  unfold reserveAdmission
  dsimp only
  have hdispatch : s.computeDispatch dpIdx a.master a.fullLen = [max a.fullLen 0] := by
    unfold computeDispatch dispatchForMaster
    rw [if_pos (Or.inl hgroup.le), hgroup, hmaster]
    rfl
  -- one group gets all the tokens, so its blocks are the whole reservation
  rw [hdispatch]
  refine ⟨s.beginAdmission seqId dpIdx a.master a.cached (a.cached + a.newTokens) [max a.fullLen 0], rfl,
    rfl, rfl, rfl, ?_, ?_⟩
  · unfold beginAdmission
    simp only [updateSeq, Function.update_self, setCache, Option.map_map]
    refine congrFun (congrArg Option.map (funext fun seq => ?_)) _
    by_cases hmode : s.config.mode = .decode <;> simp [hmode]
  · by_cases hpos : 0 < a.fullLen
    · rw [if_pos hpos, ensureDispatched, if_pos (by omega), max_eq_left hpos.le]
      show _ = Except.map _ (cacheEnsureGroupBlocks _ _ _ _ _ _).1
      split
      case h_1 e s' heq =>
        rw [show (beginAdmission s seqId dpIdx a.master a.cached (a.cached + a.newTokens) [a.fullLen]).config =
          s.config from rfl] at heq
        rw [heq]
        rfl
      case h_2 blocks s' heq =>
        rw [show (beginAdmission s seqId dpIdx a.master a.cached (a.cached + a.newTokens) [a.fullLen]).config =
          s.config from rfl] at heq
        rw [heq]
        rfl
    · rw [if_neg hpos, ensureDispatched, if_neg (by omega)]
      rfl

theorem cacheEnsureGroupBlocks_asks (tokens : ℤ) (hasks : s.asksHost seqId dpIdx = true) :
    (s.cacheEnsureGroupBlocks seqId dpIdx 0 tokens (decide (s.config.mode ≠ .decode))).1 =
      (CacheState.reserveLoop (s.flatIdx dpIdx 0) seqId
        (((s.seqTable seqId).map (·.tokenIds)).getD []) s.config.blockSize
        s.hostEnabled (s.admissionBlocks tokens) 0 (-1) false s.cache).1 := by
  unfold asksHost asksPrefixCache at hasks
  simp only [Bool.and_eq_true, decide_eq_true_eq] at hasks
  obtain ⟨⟨⟨hmode, hgroup⟩, henabled⟩, hnew⟩ := hasks
  unfold cacheEnsureGroupBlocks
  simp only [hmode, hgroup, henabled, hnew, ne_eq, not_false_eq_true, decide_true, decide_false, Bool.and_true,
    Bool.or_false, if_true]
  unfold cacheEnsureGroupBlocksWithHostPrefix admissionBlocks
  dsimp only
  split <;> rename_i heq <;> rw [heq]

theorem cacheEnsureGroupBlocks_other {tokens : ℤ} (hasks : s.asksHost seqId dpIdx = false) {e : PyErr}
    (herror : (s.cacheEnsureGroupBlocks seqId dpIdx 0 tokens (decide (s.config.mode ≠ .decode))).1 = .error e) :
    ∃ need, e = .outOfKvCacheBlocksFor seqId dpIdx 0 need := by
  have hnot : ¬ ((decide (s.config.mode ≠ .decode) && decide (s.group = 1) && decide (s.config.mode ≠ .decode)
      && s.cache.prefixCachingEnabled) && !(s.cache.hbmPools (s.flatIdx dpIdx 0)).hasSeq seqId) = true := by
    unfold asksHost asksPrefixCache at hasks
    intro h
    simp only [Bool.and_eq_true] at h
    rw [h.1.1.1.1, h.1.1.1.2, h.1.2, h.2] at hasks
    cases hasks
  unfold cacheEnsureGroupBlocks at herror
  dsimp only at herror
  rw [if_neg hnot] at herror
  split at herror
  case h_1 =>
    cases herror
    exact ⟨_, rfl⟩
  case h_2 => cases herror

/-- **The reservation succeeds exactly with room on the host**, if HBM has enough blocks. -/
theorem reserveAdmission_hostRoom (hash : HashInjective) (hc : s.cache.Hosted) (hgroup : s.group = 1)
    (hmaster : a.master = 0)
    (hhost : s.hostEnabled = true) (hblocks : s.HbmSuffices seqId dpIdx a) :
    (s.reserveAdmission seqId dpIdx a).1 = .ok () ↔ s.HostRoom seqId dpIdx a.fullLen := by
  obtain ⟨b, hconfig, hhbm, hhosts, henabled, htokens, hres⟩ :=
    reserveAdmission_one (s := s) seqId dpIdx hgroup hmaster
  unfold HbmSuffices at hblocks
  rw [hres] at hblocks ⊢
  by_cases hpos : 0 < a.fullLen
  · rw [if_pos hpos] at hblocks ⊢
    have hasks : b.asksHost seqId dpIdx = s.asksHost seqId dpIdx := by
      unfold asksHost asksPrefixCache flatIdx Scheduler.group
      rw [hconfig, hhbm, henabled]
    have hok {r : Except PyErr (List ℕ)} : r.map (fun _ => ()) = .ok () ↔ ∃ out, r = .ok out := by
      cases r with
      | error e => exact ⟨fun h => (by cases h), fun ⟨out, h⟩ => (by cases h)⟩
      | ok out => exact ⟨fun _ => ⟨out, rfl⟩, fun _ => rfl⟩
    cases h : s.asksHost seqId dpIdx with
    | false =>
      refine ⟨fun _ hasks' => absurd (h.symm.trans hasks') Bool.false_ne_true, fun _ => ?_⟩
      cases hr : (b.cacheEnsureGroupBlocks seqId dpIdx 0 a.fullLen (decide (s.config.mode ≠ .decode))).1 with
      | ok out => rfl
      | error e =>
        rw [← hconfig] at hr
        obtain ⟨need, rfl⟩ := cacheEnsureGroupBlocks_other (hasks.trans h) hr
        rw [hconfig] at hr
        have hhostError := hblocks _ (by rw [hr]; rfl)
        cases hhostError
    | true =>
      -- the reservation does not see what was written into the sequence
      have hb : b.cache.Hosted := ⟨fun f => hhosts ▸ hc.host f, fun f => hhbm ▸ hc.hashed f⟩
      have hflat : b.flatIdx dpIdx 0 = s.flatIdx dpIdx 0 := by
        unfold flatIdx Scheduler.group
        rw [hconfig]
      have hneeded : b.admissionBlocks a.fullLen = s.admissionBlocks a.fullLen := by
        unfold admissionBlocks blocksNeededForTokens
        rw [hconfig]
      have hloop := cacheEnsureGroupBlocks_asks a.fullLen (hasks.trans h)
      rw [hconfig, hflat, htokens, hneeded,
        show b.hostEnabled = true by unfold hostEnabled at hhost ⊢; rwa [hconfig]] at hloop
      rw [hloop] at hblocks ⊢
      rw [hok]
      have herror : ∀ e, (CacheState.reserveLoop (s.flatIdx dpIdx 0) seqId
        (((s.seqTable seqId).map (·.tokenIds)).getD [])
          s.config.blockSize true (s.admissionBlocks a.fullLen) 0 (-1) false b.cache).1 = .error e →
            (b.cache.hostPools (s.flatIdx dpIdx 0)).HasRoom → e = .outOfKvCacheBlocks :=
        (reserveLoop_reserves hash (fun _ => prefixHash_nil.symm) hb).error
      have hfull : ¬ (b.cache.hostPools (s.flatIdx dpIdx 0)).HasRoom → StoppedBy _ _ (CacheState.reserveLoop
          (s.flatIdx dpIdx 0) seqId (((s.seqTable seqId).map (·.tokenIds)).getD []) s.config.blockSize true
            (s.admissionBlocks a.fullLen) 0 (-1) false b.cache).1 := reserveLoop_full hash hb
      rw [hhosts] at herror hfull
      rw [hhbm] at hfull
      generalize (CacheState.reserveLoop (s.flatIdx dpIdx 0) seqId (((s.seqTable seqId).map (·.tokenIds)).getD [])
        s.config.blockSize true (s.admissionBlocks a.fullLen) 0 (-1) false b.cache).1 = r at herror hfull hblocks ⊢
      -- an error would be one of the HBM pool
      have hnone (hkv : ∀ e, r = .error e → e = .outOfKvCacheBlocks) : ∃ out, r = .ok out := by
        cases r with
        | ok out => exact ⟨out, rfl⟩
        | error e =>
          obtain rfl := hkv e rfl
          have hhostError := hblocks _ rfl
          cases hhostError
      by_cases hroom : (s.cache.hostPools (s.flatIdx dpIdx 0)).HasRoom
      · exact ⟨fun _ _ _ => Or.inl hroom, fun _ => hnone fun e he => herror e he hroom⟩
      · constructor
        · rintro ⟨out, hout⟩ _ _
          refine Or.inr fun b hb => ?_
          by_contra hne
          exact (hfull hroom).stopped ⟨b, hb, hne⟩ out hout
        · intro hroom'
          exact hnone ((hfull hroom).clean ((hroom' h hpos).resolve_left hroom))
  · rw [if_neg hpos]
    exact ⟨fun _ _ h => absurd h hpos, fun _ => rfl⟩

end Scheduler

/-! ### Asking the prefix cache -/

namespace BlockPool

/-- The pools differ in the order of the queue only. -/
structure SameBlocks (p p' : BlockPool) : Prop where
  numBlocks : p'.numBlocks = p.numBlocks
  blocks : p'.blocks = p.blocks
  freeBlocks : p'.freeBlocks = p.freeBlocks
  seqBlocks : p'.seqBlocks = p.seqBlocks
  hashToBlockId : p'.hashToBlockId = p.hashToBlockId

variable {p p' p'' : BlockPool}

theorem SameBlocks.refl (p : BlockPool) : SameBlocks p p := ⟨rfl, rfl, rfl, rfl, rfl⟩

theorem SameBlocks.trans (h : SameBlocks p p') (k : SameBlocks p' p'') : SameBlocks p p'' :=
  ⟨k.numBlocks.trans h.numBlocks, k.blocks.trans h.blocks, k.freeBlocks.trans h.freeBlocks,
    k.seqBlocks.trans h.seqBlocks,
    k.hashToBlockId.trans h.hashToBlockId⟩

theorem lookupReadyPrefixBlock_same (p : BlockPool) (h : ℤ) (view : List ℤ) :
    SameBlocks p (p.lookupReadyPrefixBlock h view).2 := by
  unfold lookupReadyPrefixBlock
  split
  · exact .refl p
  · exact ⟨touchReadyHash_numBlocks p h, touchReadyHash_blocks p h, touchReadyHash_freeBlocks p h,
      touchReadyHash_seqBlocks p h,
      touchReadyHash_hashToBlockId p h⟩

theorem SameBlocks.hasRoom (h : SameBlocks p p') : p'.HasRoom ↔ p.HasRoom := by
  unfold HasRoom
  rw [h.freeBlocks, h.numBlocks, h.blocks]

theorem SameBlocks.evictedReadyMeta (h : SameBlocks p p') (b : ℕ) : p'.evictedReadyMeta b = p.evictedReadyMeta b :=
  evictedReadyMeta_congr h.numBlocks (fun b => by rw [h.blocks]; exact ⟨rfl, rfl, rfl⟩) b

theorem SameBlocks.readyPrefix [Xxh3] (h : SameBlocks p p') (blockSize : ℕ) (tokenIds : List ℤ)
    (n blockIdx : ℕ) (hash : ℤ) :
    p'.readyPrefix blockSize tokenIds n blockIdx hash = p.readyPrefix blockSize tokenIds n blockIdx hash :=
  readyPrefix_congr (lookupReadyBlock_congr h.numBlocks
    (fun b => by rw [h.blocks]; exact ⟨rfl, rfl, rfl⟩) h.hashToBlockId)
    blockSize tokenIds n blockIdx hash

end BlockPool

theorem CacheState.matchedLoop_same [Xxh3] (flat : ℕ) (tokenIds : List ℤ) (blockSize n blockIdx : ℕ)
    (h : ℤ) (c : CacheState) :
    SameBlocks (c.hbmPools flat) ((matchedLoop flat tokenIds blockSize n blockIdx h c).2.hbmPools flat) ∧
      SameBlocks (c.hostPools flat) ((matchedLoop flat tokenIds blockSize n blockIdx h c).2.hostPools flat) ∧
      (matchedLoop flat tokenIds blockSize n blockIdx h c).2.prefixCachingEnabled = c.prefixCachingEnabled := by
  induction n generalizing blockIdx h c with
  | zero => exact ⟨.refl _, .refl _, rfl⟩
  | succ n ih =>
    rw [matchedLoop]
    dsimp only
    split
    case isTrue => exact ⟨.refl _, .refl _, rfl⟩
    case isFalse =>
      generalize computeBlockHash (blockView blockSize tokenIds blockIdx) h = k
      -- a lookup moves an entry in the LRU order and changes no block
      have hhbm := (c.hbmPools flat).lookupReadyPrefixBlock_same k (blockView blockSize tokenIds blockIdx)
      have hhost := (c.hostPools flat).lookupReadyPrefixBlock_same k (blockView blockSize tokenIds blockIdx)
      split
      case isTrue =>
        have hrest := ih (blockIdx + 1) k (c.setHbmPool flat
          ((c.hbmPools flat).lookupReadyPrefixBlock k (blockView blockSize tokenIds blockIdx)).2)
        rw [setHbmPool_self] at hrest
        exact ⟨hhbm.trans hrest.1, hrest.2⟩
      case isFalse =>
        split
        case isTrue =>
          have hrest := ih (blockIdx + 1) k ((c.setHbmPool flat
            ((c.hbmPools flat).lookupReadyPrefixBlock k (blockView blockSize tokenIds blockIdx)).2).setHostPool flat
            ((c.hostPools flat).lookupReadyPrefixBlock k (blockView blockSize tokenIds blockIdx)).2)
          rw [setHostPool_self, setHostPool_hbmPools, setHbmPool_self] at hrest
          exact ⟨hhbm.trans hrest.1, hhost.trans hrest.2.1, hrest.2.2⟩
        case isFalse =>
          rw [setHostPool_hbmPools, setHbmPool_self, setHostPool_self]
          exact ⟨hhbm, hhost, rfl⟩

namespace Scheduler

variable [Xxh3] {s s₁ : Scheduler} {seqId dpIdx : ℕ} {a : Admission} {batchSeqs batchTokens : ℕ → ℤ}

/-- What is computed before the reservation does not change the room for it. -/
theorem prepareAdmission_hostRoom (hprep : s.prepareAdmission seqId dpIdx batchSeqs batchTokens = (some a, s₁))
    (hmaster : a.master = 0) (fullLen : ℤ) :
      s₁.HostRoom seqId dpIdx fullLen ↔ s.HostRoom seqId dpIdx fullLen := by
  obtain ⟨seq, -, rfl⟩ := prepareAdmission_some hprep
  rw [hmaster]
  unfold admissionCached
  split
  case isFalse => rfl
  case isTrue =>
    obtain ⟨hhbm, hhost, henabled⟩ := matchedLoop_same (s.flatIdx dpIdx 0) seq.tokenIds s.config.blockSize
      (s.blocksNeededForTokens (s.fullLen seq)) 0 (-1) s.cache
    dsimp only
    set s₁ := (s.cacheCachedTokensForPrefix (s.flatIdx dpIdx 0) seq.tokenIds (s.fullLen seq)).2.updateSeq seqId
      (fun x => { x with
        numCachedTokens := (s.cacheCachedTokensForPrefix (s.flatIdx dpIdx 0) seq.tokenIds (s.fullLen seq)).1
        prefillStartOffset := (s.cacheCachedTokensForPrefix (s.flatIdx dpIdx 0) seq.tokenIds (s.fullLen seq)).1 })
      with hs₁
    replace hhbm : SameBlocks (s.cache.hbmPools (s.flatIdx dpIdx 0)) (s₁.cache.hbmPools (s.flatIdx dpIdx 0)) := hhbm
    replace hhost : SameBlocks (s.cache.hostPools (s.flatIdx dpIdx 0))
      (s₁.cache.hostPools (s.flatIdx dpIdx 0)) := hhost
    have hflat : s₁.flatIdx dpIdx 0 = s.flatIdx dpIdx 0 := rfl
    -- each part of `HostRoom` reads only what the lookups leave
    have hasks : s₁.asksHost seqId dpIdx = s.asksHost seqId dpIdx := by
      unfold asksHost asksPrefixCache BlockPool.hasSeq
      rw [hflat, hhbm.seqBlocks, show s₁.cache.prefixCachingEnabled = s.cache.prefixCachingEnabled from henabled]
      rfl
    have htokens : (s₁.seqTable seqId).map (·.tokenIds) = (s.seqTable seqId).map (·.tokenIds) := by
      rw [hs₁]
      simp only [updateSeq, Function.update_self, Option.map_map]
      rfl
    have hretained : s₁.retainedBlocks seqId dpIdx fullLen = s.retainedBlocks seqId dpIdx fullLen := by
      unfold retainedBlocks
      rw [hflat, htokens, hhbm.readyPrefix]
      rfl
    unfold HostRoom freeBeside
    rw [hasks, hflat, hhost.hasRoom, hretained, hhbm.freeBlocks]
    simp only [hhbm.evictedReadyMeta]
    rfl

end Scheduler

/-! ### Enough blocks -/

namespace CacheState

variable [Xxh3] {c c' : CacheState} {flat seqId : ℕ} {hostEnabled : Bool}

/-- What an iteration does to the free list `free` of HBM: it takes at most one block and fails for want of it only when
there is none. -/
structure TakesOne {α : Type} (free : List ℕ) (r : Except PyErr α) (free' : List ℕ) : Prop where
  nodup : free'.Nodup
  length : free.length ≤ free'.length + 1
  error : ∀ e, r = .error e → e = .outOfHostKvCacheBlocks ∨ free = []

omit [Xxh3] in
theorem length_filter_ne {free : List ℕ} (hnodup : free.Nodup) (b : ℕ) :
    free.length ≤ (free.filter (fun d => decide (d ≠ b))).length + 1 := by
  have herase : free.erase b = free.filter (fun d => decide (d ≠ b)) := by
    rw [hnodup.erase_eq_filter]
    exact List.filter_congr fun d _ => by by_cases hd : d = b <;> simp [hd]
  rw [← herase]
  have := List.length_erase_add_one (l := free) (a := b)
  by_cases hb : b ∈ free
  · exact (this hb).ge
  · rw [List.erase_of_not_mem hb]
    exact Nat.le_succ _

theorem writeBack_error (hash : HashInjective) (hc : c.Hosted) {evicted : Option EvictedBlock}
    (hevicted : ∀ e ∈ evicted, HashOf e.hash e.tokenIds) {err : PyErr}
    (h : c.writeBackEvictedPrefix flat evicted hostEnabled = (.error err, c')) : err = .outOfHostKvCacheBlocks := by
  rcases writeBack_cases hash hc flat hostEnabled hevicted with ⟨-, heq⟩ | ⟨-, c₁, heq,
    -⟩ | ⟨-, -, -, heq⟩ <;>
    rw [heq] at h <;> cases h
  rfl

theorem reserveFresh_takesOne (hash : HashInjective) (hc : c.Hosted) (hnodup : (c.hbmPools flat).freeBlocks.Nodup) :
    TakesOne (c.hbmPools flat).freeBlocks (c.reserveFresh flat hostEnabled).1
      ((c.reserveFresh flat hostEnabled).2.hbmPools flat).freeBlocks := by
  cases hfree : (c.hbmPools flat).freeBlocks with
  | nil =>
    unfold reserveFresh
    rw [allocateFreshWithEviction_nil hfree]
    dsimp only
    rw [setHbmPool_self, hfree]
    exact ⟨List.nodup_nil, Nat.zero_le _, fun _ _ => Or.inr rfl⟩
  | cons b free =>
    obtain ⟨evicted, p, halloc, hp, -⟩ := allocateFreshWithEviction_cons hfree
    obtain ⟨-, -, rfl⟩ := allocateFreshWithEviction_fresh halloc
    have hnext : (c.setHbmPool flat p).Hosted := hc.setHbmPool (readyHashed_contents.allocate (hc.hashed flat) halloc)
    have hpools := writeBackEvictedPrefix_hbmPools (c.setHbmPool flat p) flat
      ((c.hbmPools flat).evictedReadyMeta b) hostEnabled
    rw [hfree] at hnodup
    unfold reserveFresh
    rw [halloc]
    dsimp only
    split
    -- the block is taken by now: the error is that of the write-back
    case h_1 e c' heq =>
      rw [heq] at hpools
      rw [hpools, setHbmPool_self, hp]
      refine ⟨hnodup.of_cons, le_rfl, fun e' he' => ?_⟩
      cases he'
      exact Or.inl (writeBack_error hash hnext (fun e he => (hc.hashed flat).evicted he) heq)
    case h_2 c' heq =>
      rw [heq] at hpools
      rw [hpools, setHbmPool_self, hp]
      exact ⟨hnodup.of_cons, le_rfl, fun e' he' => by cases he'⟩

theorem reservePromoted_takesOne (hash : HashInjective) (hc : c.Hosted)
    (hnodup : (c.hbmPools flat).freeBlocks.Nodup) {h : ℤ}
    {view : List ℤ} {hostBlock : ℕ} (hview : HashOf h view)
    (hmiss : (c.hbmPools flat).lookupReadyBlock h view = none) :
    TakesOne (c.hbmPools flat).freeBlocks (c.reservePromoted flat seqId h view hostBlock hostEnabled).1
      ((c.reservePromoted flat seqId h view hostBlock hostEnabled).2.hbmPools flat).freeBlocks := by
  unfold reservePromoted
  split
  case h_1 e p halloc =>
    unfold allocatePromotedReady at halloc
    cases hfree : (c.hbmPools flat).freeBlocks with
    | nil =>
      rw [allocateFreshWithEviction_nil hfree] at halloc
      cases halloc
      rw [setHbmPool_self, hfree]
      exact ⟨List.nodup_nil, Nat.zero_le _, fun _ _ => Or.inr rfl⟩
    | cons b free =>
      obtain ⟨evicted, p₁, hfresh, -⟩ := allocateFreshWithEviction_cons hfree
      rw [hfresh] at halloc
      cases halloc
  case h_2 b evicted p halloc =>
    obtain ⟨hfresh, -, rfl⟩ := allocatePromotedReady_fresh halloc
    have hnext : (c.setHbmPool flat p).Hosted :=
      hc.setHbmPool (readyHashed_contents.promote (hc.hashed flat) hview hmiss halloc)
    have hpools := writeBackEvictedPrefix_hbmPools (c.setHbmPool flat p) flat
      ((c.hbmPools flat).evictedReadyMeta b) hostEnabled
    rw [hfresh.freeBlocks] at hnodup ⊢
    split
    case h_1 e c' heq =>
      rw [heq] at hpools
      rw [hpools, setHbmPool_self]
      refine ⟨hnodup.of_cons, le_rfl, fun e' he' => ?_⟩
      cases he'
      exact Or.inl (writeBack_error hash hnext (fun e he => (hc.hashed flat).evicted he) heq)
    case h_2 c' heq =>
      rw [heq] at hpools
      rw [pushPendingSwapIn_hbmPools, hpools, setHbmPool_self]
      exact ⟨hnodup.of_cons, le_rfl, fun e' he' => by cases he'⟩

theorem reserveStep_takesOne (hash : HashInjective) (hc : c.Hosted)
    (hnodup : (c.hbmPools flat).freeBlocks.Nodup) {h : ℤ}
    {view : List ℤ} {lookup : Bool} (hview : lookup = true → HashOf h view) :
    TakesOne (c.hbmPools flat).freeBlocks (c.reserveStep flat seqId h view lookup hostEnabled).1
      ((c.reserveStep flat seqId h view lookup hostEnabled).2.2.hbmPools flat).freeBlocks := by
  unfold reserveStep
  split
  case isFalse => exact reserveFresh_takesOne hash hc hnodup
  case isTrue hlookup =>
    dsimp only
    split
    -- a hit may be a free block: it leaves the free list, from wherever it stands there
    case h_1 b hhit =>
      rw [lookupReadyPrefixBlock_fst] at hhit
      obtain ⟨q, hretain, hfree, -⟩ := retainBlock_same (lookupReadyBlock_some hhit).1 h
      have hpool : ((c.hbmPools flat).lookupReadyPrefixBlock h view).2 = (c.hbmPools flat).touchReadyHash h := by
        unfold lookupReadyPrefixBlock
        rw [hhit]
      unfold reserveRetained
      rw [setHbmPool_self, hpool, hretain]
      dsimp only
      rw [setHbmPool_self, hfree]
      exact ⟨hnodup.filter _, length_filter_ne hnodup b, fun e he => by cases he⟩
    case h_2 hmiss =>
      rw [lookupReadyPrefixBlock_fst] at hmiss
      rw [lookupReadyPrefixBlock_miss hmiss, setHbmPool_same]
      have hhost : (c.setHostPool flat ((c.hostPools flat).lookupReadyPrefixBlock h view).2).Hosted :=
        hc.setHostPool ((hc.host flat).lookup h view)
      split
      case h_1 hostBlock _ => exact reservePromoted_takesOne hash hhost hnodup (hview hlookup) hmiss
      case h_2 => exact reserveFresh_takesOne hash hhost hnodup

/-- A loop of at most as many iterations as there are free blocks does not run out of them. -/
theorem reserveLoop_enough (hash : HashInjective) {tokenIds : List ℤ} {blockSize n blockIdx : ℕ}
    {h : ℤ} {cacheMiss : Bool}
    {views : List (List ℤ)} (hh : cacheMiss = false → h = prefixHash views) (hc : c.Hosted)
    (hnodup : (c.hbmPools flat).freeBlocks.Nodup) (henough : n ≤ (c.hbmPools flat).freeBlocks.length) {e : PyErr}
    (he : (reserveLoop flat seqId tokenIds blockSize hostEnabled n blockIdx h cacheMiss c).1 = .error e) :
    e = .outOfHostKvCacheBlocks := by
  -- `k` iterations are left and at least `k` blocks are free
  refine (reserveLoop_countdown (E := fun e => e = .outOfHostKvCacheBlocks)
    (J := fun k c => c.Hosted ∧ (c.hbmPools flat).freeBlocks.Nodup ∧ k ≤ (c.hbmPools flat).freeBlocks.length)
    (fun k c h view lookup hJ hview => ?_) hh ⟨hc, hnodup, henough⟩).2 e he
  obtain ⟨hc, hnodup, hk⟩ := hJ
  have hone : TakesOne (c.hbmPools flat).freeBlocks (c.reserveStep flat seqId h view lookup hostEnabled).1 _ :=
    reserveStep_takesOne hash hc hnodup hview
  have hlength := hone.length
  refine ⟨⟨(reserveStep_reserves hash hc hview).hosted, hone.nodup, by omega⟩, fun e he => ?_⟩
  rcases hone.error e he with hhost | hnil
  · exact hhost
  · rw [hnil] at hk
    cases hk

/-- Nor does one of as many iterations as there are leading `Ready` blocks and free blocks beside them. -/
theorem reserveLoop_suffices (hash : HashInjective) {tokenIds : List ℤ} {blockSize n blockIdx : ℕ}
    {views : List (List ℤ)} (hc : c.Hosted) (hnodup : (c.hbmPools flat).freeBlocks.Nodup)
    (henough : n ≤ ((c.hbmPools flat).readyPrefix blockSize tokenIds n blockIdx (prefixHash views)).length +
      ((c.hbmPools flat).freeBlocks.filter (fun b =>
        decide (b ∉ (c.hbmPools flat).readyPrefix blockSize tokenIds n blockIdx (prefixHash views)))).length)
          {e : PyErr}
    (he : (reserveLoop flat seqId tokenIds blockSize hostEnabled n blockIdx (prefixHash views) false c).1 = .error e) :
    e = .outOfHostKvCacheBlocks := by
  -- on the iterations left, while they still hit; from the first miss on only free blocks count
  induction n generalizing c blockIdx views with
  | zero => cases he
  | succ n ih =>
    by_cases hhit : ∃ b, (blockView blockSize tokenIds blockIdx).length = blockSize ∧
      (c.hbmPools flat).lookupReadyBlock
        (computeBlockHash (blockView blockSize tokenIds blockIdx) (prefixHash views))
        (blockView blockSize tokenIds blockIdx) =
          some b
    · obtain ⟨b, hview, hhit⟩ := hhit
      obtain ⟨q, hstep, hq, hfree, hlook, -⟩ := reserveStep_hit hc seqId hostEnabled hhit
      have hlookup : (decide ((blockView blockSize tokenIds blockIdx).length = blockSize) && !false) = true := by
        rw [decide_eq_true hview]
        rfl
      rw [readyPrefix_hit n hview hhit, ← filter_beside, ← hfree, ← readyPrefix_congr hlook,
        ← prefixHash_append] at henough
      rw [reserveLoop] at he
      rw [hlookup, if_pos rfl, hstep, ← prefixHash_append] at he
      dsimp only at he
      refine @ih (c.setHbmPool flat q) (blockIdx + 1) (views ++ [blockView blockSize tokenIds blockIdx]) hq ?_ ?_ ?_
      · rw [setHbmPool_self, hfree]
        exact hnodup.filter _
      · rw [setHbmPool_self]
        rw [List.length_cons] at henough
        omega
      · split at he
        case h_1 e' c' heq =>
          rw [heq]
          exact he
        case h_2 => cases he
    · refine reserveLoop_enough hash (fun _ => rfl) hc hnodup ?_ he
      have hmiss (hview : (blockView blockSize tokenIds blockIdx).length = blockSize) :
        (c.hbmPools flat).lookupReadyBlock
          (computeBlockHash (blockView blockSize tokenIds blockIdx) (prefixHash views))
          (blockView blockSize tokenIds blockIdx) = none := by
        by_contra hne
        obtain ⟨b, hb⟩ := Option.ne_none_iff_exists'.1 hne
        exact hhit ⟨b, hview, hb⟩
      rw [readyPrefix_miss n hmiss] at henough
      simpa using henough

end CacheState

namespace Scheduler

variable [Xxh3] {s : Scheduler} {seqId dpIdx : ℕ} {a : Admission}

/-- Without the host prefix cache only the table and the free list count. -/
theorem cacheEnsureGroupBlocks_enough {tokens : ℤ} (hasks : s.asksHost seqId dpIdx = false)
    (hcount : (s.cache.hbmPools (s.flatIdx dpIdx 0)).numBlocksForTokens (tokens +
      max s.config.numSpeculativeTokens 0) ≤
      ((s.cache.hbmPools (s.flatIdx dpIdx 0)).table seqId).length +
        (s.cache.hbmPools (s.flatIdx dpIdx 0)).freeBlocks.length) :
    ∃ out, (s.cacheEnsureGroupBlocks seqId dpIdx 0 tokens (decide (s.config.mode ≠ .decode))).1 = .ok out := by
  have hlookahead : ((decide (s.config.mode ≠ .decode) && decide (s.config.mode ≠ .decode)) ||
      decide (s.config.mode = .decode)) = true := by
    by_cases hmode : s.config.mode = .decode <;> simp [hmode]
  have huse : (decide (s.config.mode ≠ .decode) && decide (s.group = 1) && decide (s.config.mode ≠ .decode)
      && s.cache.prefixCachingEnabled) = s.asksPrefixCache := by
    unfold asksPrefixCache
    by_cases hmode : s.config.mode = .decode <;> simp [hmode]
  unfold asksHost at hasks
  rw [Bool.and_eq_false_imp, Bool.not_eq_false'] at hasks
  unfold cacheEnsureGroupBlocks
  dsimp only
  rw [hlookahead, huse, if_pos rfl, if_neg (by
    intro h
    rw [Bool.and_eq_true] at h
    rw [hasks h.1] at h
    exact absurd h.2 (by decide))]
  have hplan : (s.cache.hbmPools (s.flatIdx dpIdx 0)).hasSeq seqId = true ∨ s.asksPrefixCache = false := by
    cases hask : s.asksPrefixCache with
    | true => exact Or.inl (hasks hask)
    | false => exact Or.inr rfl
  obtain ⟨p', hens⟩ := ensureBlocks_enough
    (if s.asksPrefixCache = true then ((s.seqTable seqId).map (·.tokenIds)).getD [] else []) hplan hcount
  unfold CacheState.ensureHbmBlocks
  rw [hens]
  exact ⟨_, rfl⟩

/-- HBM suffices when the admission needs no more blocks than it retains and are free beside those; without the host
prefix cache, no more than the sequence has and are free. -/
theorem hbmSuffices_of_count (hash : HashInjective) (hc : s.cache.Hosted) (hcounted : s.cache.PoolsCounted)
    (hgroup : s.group = 1) (hmaster : a.master = 0)
    (hcount : if s.asksHost seqId dpIdx then s.admissionBlocks a.fullLen ≤
        (s.retainedBlocks seqId dpIdx a.fullLen).length + (s.freeBeside seqId dpIdx a.fullLen).length
      else (s.cache.hbmPools (s.flatIdx dpIdx 0)).numBlocksForTokens (a.fullLen +
        max s.config.numSpeculativeTokens 0) ≤
        ((s.cache.hbmPools (s.flatIdx dpIdx 0)).table seqId).length +
          (s.cache.hbmPools (s.flatIdx dpIdx 0)).freeBlocks.length) :
    s.HbmSuffices seqId dpIdx a := by
  obtain ⟨b, hconfig, hhbm, hhosts, henabled, htokens, hres⟩ :=
    reserveAdmission_one (s := s) seqId dpIdx hgroup hmaster
  intro e he
  rw [hres] at he
  split at he
  case isFalse => cases he
  case isTrue hpos =>
    have hflat : b.flatIdx dpIdx 0 = s.flatIdx dpIdx 0 := by
      unfold flatIdx Scheduler.group
      rw [hconfig]
    have hasks : b.asksHost seqId dpIdx = s.asksHost seqId dpIdx := by
      unfold asksHost asksPrefixCache flatIdx Scheduler.group
      rw [hconfig, hhbm, henabled]
    -- with the host prefix cache the loop takes the blocks one by one, without it all at once
    cases h : s.asksHost seqId dpIdx with
    | true =>
      have hneeded : b.admissionBlocks a.fullLen = s.admissionBlocks a.fullLen := by
        unfold admissionBlocks blocksNeededForTokens
        rw [hconfig]
      have hb : b.cache.Hosted := ⟨fun f => hhosts ▸ hc.host f, fun f => hhbm ▸ hc.hashed f⟩
      rw [h, if_pos rfl] at hcount
      unfold freeBeside retainedBlocks at hcount
      rw [← hconfig, cacheEnsureGroupBlocks_asks _ (hasks.trans h), hconfig, hflat, htokens, hneeded] at he
      have hnodup : (s.cache.hbmPools (s.flatIdx dpIdx 0)).freeBlocks.Nodup := (hcounted _).1.free_nodup
      rw [← hhbm] at hcount hnodup
      have hfail : ∀ e', (CacheState.reserveLoop (s.flatIdx dpIdx 0) seqId
        (((s.seqTable seqId).map (·.tokenIds)).getD [])
          s.config.blockSize b.hostEnabled (s.admissionBlocks a.fullLen) 0 (prefixHash []) false
            b.cache).1 = .error e' →
            e' = .outOfHostKvCacheBlocks := fun e' => reserveLoop_suffices hash hb hnodup hcount
      rw [prefixHash_nil] at hfail
      generalize (CacheState.reserveLoop (s.flatIdx dpIdx 0) seqId (((s.seqTable seqId).map (·.tokenIds)).getD [])
        s.config.blockSize b.hostEnabled (s.admissionBlocks a.fullLen) 0 (-1) false b.cache).1 = r at he hfail
      cases r with
      | ok out => cases he
      | error e' =>
        cases he
        exact hfail e rfl
    | false =>
      rw [h, if_neg Bool.false_ne_true, ← hhbm, ← hflat, ← hconfig] at hcount
      obtain ⟨out, hout⟩ := cacheEnsureGroupBlocks_enough (hasks.trans h) hcount
      rw [← hconfig, hout] at he
      cases he

end Scheduler

namespace Scheduler

theorem slotsExhausted_congr {s s' : Scheduler} (hconfig : s'.config = s.config)
    (hslots : s'.cache.stateSlots = s.cache.stateSlots)
    (hhisparse : s'.cache.hisparseSlots = s.cache.hisparseSlots) (seqId dpIdx : ℕ) :
    s'.slotsExhausted seqId dpIdx = s.slotsExhausted seqId dpIdx := by
  unfold slotsExhausted CacheState.canEnsureStateSlot CacheState.canEnsureHisparseSlot CacheState.stateSlot
    CacheState.hisparseSlot
    Scheduler.dp
  rw [hconfig, hslots, hhisparse]

variable [Xxh3] {s s₁ s₂ : Scheduler} {seqId dpIdx : ℕ} {a : Admission} {batchSeqs batchTokens : ℕ → ℤ}

/-- The reservation leaves slots and pages as the check found them, and the sequence has its rank. -/
theorem reserveAdmission_finishes (hprep : s.prepareAdmission seqId dpIdx batchSeqs batchTokens = (some a, s₁))
    (hpages : ∀ p ∈ s.cache.compressedPools, p.Suffices seqId a.fullLen) {r : Except PyErr Unit}
    (hres : s₁.reserveAdmission seqId dpIdx a = (r, s₂)) :
    ∃ s₃, s₂.finishAdmission seqId a.master a.fullLen a.cached = (.ok (), s₃) := by
  have hprepare := s.prepareAdmission_same seqId dpIdx batchSeqs batchTokens
  rw [hprep] at hprepare
  obtain ⟨seq, hprepared, -⟩ := prepareAdmission_some hprep
  have hreserve := ensureDispatched_same seqId dpIdx 0 (s₁.computeDispatch dpIdx a.master a.fullLen)
    (s₁.beginAdmission seqId dpIdx a.master a.cached (a.cached + a.newTokens)
      (s₁.computeDispatch dpIdx a.master a.fullLen))
  rw [show ensureDispatched seqId dpIdx 0 _ _ = (r, s₂) from hres] at hreserve
  have hpart : s₂.cache.slotPart = s.cache.slotPart.assign seqId dpIdx a.master := by
    rw [← hprepare.slotPart]
    exact hreserve.slotPart
  have hassigned : s₂.cache.seqAssignment = Function.update s.cache.seqAssignment seqId (some (dpIdx, a.master)) :=
    congrArg SlotPart.seqAssignment hpart
  have hslots : s₂.slotsExhausted seqId dpIdx = false := by
    rw [slotsExhausted_congr (hreserve.config.trans hprepare.config) (congrArg SlotPart.stateSlots hpart)
      (congrArg SlotPart.hisparseSlots hpart)]
    exact hprepared.slots
  have hpools : s₂.cache.compressedPools = s.cache.compressedPools := congrArg SlotPart.compressedPools hpart
  exact finishAdmission_ok ⟨a.master, by rw [hassigned, Function.update_self]⟩ hslots (hpools ▸ hpages)

end Scheduler

/-- **Admission with a full host pool**: a sequence for which HBM blocks, slots and pages suffice is admitted exactly if
no `Ready` block of HBM has to be written back into a host pool without a free and without an evictable block. -/
theorem tryAllocatePrefill_hostRoom [Xxh3] (hash : HashInjective) {config : SchedulerConfig} {st : PrefillState}
    (hst : Attempts config st) (hgroup : config.group = 1) (hhost : 0 < config.numHostKvcacheBlocks) {seqId dpIdx : ℕ}
    {a : Admission} {s₁ : Scheduler}
    (hprep : st.sched.prepareAdmission seqId dpIdx (st.numSeqs dpIdx) (st.numTokens dpIdx) = (some a, s₁))
    (hblocks : s₁.HbmSuffices seqId dpIdx a)
    (hpages : ∀ p ∈ st.sched.cache.compressedPools, p.Suffices seqId a.fullLen) :
    (∃ n s', st.tryOn seqId dpIdx = (.ok (some n), s')) ↔ st.sched.HostRoom seqId dpIdx a.fullLen := by
  have hinv := (hosted_rule hash config).attempts hst
  have hinv₁ : PoolInv config Hosted s₁ := by
    have h : PoolInv config Hosted (st.sched.prepareAdmission seqId dpIdx (st.numSeqs dpIdx) (st.numTokens dpIdx)).2 :=
      (hosted_rule hash config).prepareAdmission hinv (st.numSeqs dpIdx) (st.numTokens dpIdx)
    rwa [hprep] at h
  have hmaster : a.master = 0 := by
    obtain ⟨seq, hprepared, -⟩ := prepareAdmission_some hprep
    have hlt := (chooseMasterGroup_some hprepared.group).1
    unfold Scheduler.group at hlt
    rw [hinv.config_eq, hgroup] at hlt
    omega
  have hgroup₁ : s₁.group = 1 := by
    unfold Scheduler.group
    rw [hinv₁.config_eq, hgroup]
  have hhost₁ : s₁.hostEnabled = true := by
    unfold hostEnabled
    rw [hinv₁.config_eq]
    exact decide_eq_true hhost
  rw [← prepareAdmission_hostRoom hprep hmaster,
    ← reserveAdmission_hostRoom hash hinv₁.pools hgroup₁ hmaster hhost₁ hblocks]
  unfold PrefillState.tryOn tryAllocatePrefill
  rw [hprep]
  dsimp only
  -- only the reservation can fail: slots and pages suffice for what comes after it
  cases hres : s₁.reserveAdmission seqId dpIdx a with
  | mk r s₂ =>
    cases r with
    | error e =>
      refine ⟨fun ⟨n, s', h⟩ => ?_, fun h => by cases h⟩
      dsimp only at h
      split at h <;> cases h
    | ok u =>
      refine ⟨fun _ => rfl, fun _ => ?_⟩
      obtain ⟨s₃, hfin⟩ := reserveAdmission_finishes hprep hpages hres
      dsimp only
      rw [hfin]
      exact ⟨a.newTokens, s₃, rfl⟩

section witness

attribute [local instance] codeHash

/-- Three HBM blocks and `hostBlocks` host blocks of one token each. -/
def swappedConfig (hostBlocks : ℤ) : SchedulerConfig where
  maxNumSeqs := 8
  maxNumBatchedTokens := 100
  maxModelLen := 100
  numKvcacheBlocks := 3
  numHostKvcacheBlocks := hostBlocks
  kvcacheBlockSize := 1

/-- Sequence 0 is computed, swapped out for want of a block for its next token and restored; then sequence 1 arrives. -/
def swappedOps : List EngineOp :=
  [.addRequest { seqId := 0, promptTokenIds := [5, 6] }, .step [[[9]]] [], .step [] [], .step [] [], .step [] [],
    .addRequest { seqId := 1, promptTokenIds := [7] }]

/-- The `schedule` call when it turns to sequence 0. -/
def turnsToRestored (s : Scheduler) : PrefillState :=
  let st := (PrefillState.init { s with currentStep := s.currentStep + 1 }).continueAll
  st.withSched (st.sched.routeCandidates 0).2

/-- The `schedule` call when it turns to sequence 1: sequence 0 has been restored. -/
def turnsToNext (s : Scheduler) : PrefillState :=
  let st := ((turnsToRestored s).tryRank 0 0).2
  st.withSched (st.sched.routeCandidates 1).2

def isPlaced (r : Except PyErr Bool) : Bool :=
  match r with
  | .ok placed => placed
  | .error _ => false

def isAdmitted (r : Except PyErr (Option ℤ)) : Bool :=
  match r with
  | .ok (some _) => true
  | _ => false

theorem turnsToNext_attempts {config : SchedulerConfig} {x : EngineState}
    (hx : Reachable (engineSystem config) always x)
    (hplaced : isPlaced ((turnsToRestored x.sched).tryRank 0 0).1 = true) : Attempts config (turnsToNext x.sched) := by
  have hfirst : Attempts config (turnsToRestored x.sched) := (Attempts.continued hx).routed 0
  refine Attempts.routed 1 ?_
  cases htry : (turnsToRestored x.sched).tryRank 0 0 with
  | mk r st =>
    rw [htry] at hplaced
    cases r with
    | error e => cases hplaced
    | ok placed => exact hfirst.tried htry

/-- Sequence 1 passes the checks, and one free block, that it needs, is there. -/
def needsOneBlock (st : PrefillState) : Bool :=
  ((st.sched.prepareAdmission 1 0 (st.numSeqs 0) (st.numTokens 0)).1.any fun a =>
      decide (st.sched.admissionBlocks a.fullLen ≤ (st.sched.cache.hbmPools 0).numFreeBlocks) &&
      decide (st.sched.retainedBlocks 1 0 a.fullLen = [])) &&
    st.sched.cache.compressedPools.isEmpty

/-- The reservation for sequence 1 succeeds. -/
def reservesNext (st : PrefillState) : Bool :=
  match st.sched.prepareAdmission 1 0 (st.numSeqs 0) (st.numTokens 0) with
  | (none, _) => false
  | (some a, s) => match (s.reserveAdmission 1 0 a).1 with
    | .ok () => true
    | .error _ => false

/-- Sequence 0 holds two host blocks, and there is a third one: the `Ready` block is written back there. -/
theorem tryAllocatePrefill_hostRoom_third : ∃ st : PrefillState, Attempts (swappedConfig 3) st ∧
    ∃ n s', st.tryOn 1 0 = (.ok (some n), s') := by
  obtain ⟨x, hx, hP⟩ := Reachable.exists_of_run (T := engineSystem (swappedConfig 3)) (G := always)
    (P := fun x : EngineState => isPlaced ((turnsToRestored x.sched).tryRank 0 0).1 &&
      reservesNext (turnsToNext x.sched) &&
      (turnsToNext x.sched).sched.cache.compressedPools.isEmpty &&
      !((turnsToNext x.sched).sched.cache.hostPools ((turnsToNext x.sched).sched.flatIdx 0 0)).freeBlocks.isEmpty)
    (s := EngineState.init (swappedConfig 3)) swappedOps rfl (by decide +kernel)
  simp only [Bool.and_eq_true, Bool.not_eq_true', List.isEmpty_iff, List.isEmpty_eq_false_iff] at hP
  obtain ⟨⟨⟨hplaced, hreserves⟩, hpages⟩, hroom⟩ := hP
  refine ⟨turnsToNext x.sched, turnsToNext_attempts hx hplaced, ?_⟩
  unfold reservesNext at hreserves
  cases hprep : (turnsToNext x.sched).sched.prepareAdmission 1 0 ((turnsToNext x.sched).numSeqs 0)
      ((turnsToNext x.sched).numTokens 0) with
  | mk o s₁ =>
    rw [hprep] at hreserves
    cases o with
    | none => cases hreserves
    | some a =>
      refine (tryAllocatePrefill_hostRoom hashInjective_codeHash (turnsToNext_attempts hx hplaced)
        (by decide) (by decide)
        hprep ?_ ?_).2 fun _ _ => Or.inl (Or.inl hroom)
      · intro e he
        dsimp only at hreserves
        rw [he] at hreserves
        cases hreserves
      · rw [hpages]
        exact fun p hp => by cases hp

/-- One free block, `Ready`, for a sequence that needs one; the host pool holds the swapped blocks of the other
sequence. -/
theorem not_bestEffort : ∃ st : PrefillState, Attempts (swappedConfig 2) st ∧
    (∃ a, (st.sched.prepareAdmission 1 0 (st.numSeqs 0) (st.numTokens 0)).1 = some a ∧
      st.sched.admissionBlocks a.fullLen ≤ (st.sched.cache.hbmPools 0).numFreeBlocks ∧
        st.sched.retainedBlocks 1 0 a.fullLen = []) ∧
    st.sched.cache.compressedPools = [] ∧ ¬ ∃ n s', st.tryOn 1 0 = (.ok (some n), s') := by
  obtain ⟨x, hx, hP⟩ := Reachable.exists_of_run (T := engineSystem (swappedConfig 2)) (G := always)
    (P := fun x : EngineState => isPlaced ((turnsToRestored x.sched).tryRank 0 0).1 &&
      needsOneBlock (turnsToNext x.sched) &&
      !isAdmitted ((turnsToNext x.sched).tryOn 1 0).1)
    (s := EngineState.init (swappedConfig 2)) swappedOps rfl (by decide +kernel)
  simp only [needsOneBlock, Bool.and_eq_true, Bool.not_eq_true', Option.any_eq_true, decide_eq_true_eq] at hP
  obtain ⟨⟨hplaced, hprepared, hpages⟩, hrefused⟩ := hP
  refine ⟨turnsToNext x.sched, turnsToNext_attempts hx hplaced, hprepared, List.isEmpty_iff.1 hpages, ?_⟩
  rintro ⟨n, s', h⟩
  rw [h] at hrefused
  cases hrefused

end witness

end NanoEngine
