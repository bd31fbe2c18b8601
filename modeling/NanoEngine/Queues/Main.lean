import NanoEngine.Queues.Postprocess

/-!
# NanoEngine.Queues.Main — every live sequence is in exactly one queue

Runs of `callSystem`, with any number of ranks and groups.

* `CallInv`: every live id is queued once, and the outstanding result runs on its ranks.
* `queueGuard`: no try of a `schedule` call requeues a sequence of that call's result, or puts it before the head that
  a later rank takes.
* `live_queued_once`: under the guard every live sequence is in one queue in every state that a run reaches.
* `not_live_queued_once`: without the guard a sequence is lost from all queues.
-/

namespace NanoEngine

open Counting Scheduler PrefillState Transition

/-! ## The start of postprocessing -/

section postprocess

variable {L : Finset ℕ} {s : Scheduler} {r : ScheduleResult}

/-- The sequences of the result leave `running`. -/
theorem OneQueue.takeScheduled (h : OneQueue L [] s) (hdum : ∀ id ∈ s.dummySeqIds, id ∉ L)
    (hgrouped : Grouped s r) (hruns : ResultRuns s (List.range s.dp) r.dpSeqIds) :
    OneQueue L (s.real r.filteredDpGroupSeqIds.flatten) { s with
      lastStepTokenIds := fun _ => none
      running := fun d => (s.running d).filter
        (fun id => decide (id ∉ scheduledIds s.group r.filteredDpGroupSeqIds d)) } := by
  have hlen : r.dpSeqIds.length = s.dp := by rw [← hruns.length_eq, List.length_range]
  refine h.move (fun id => ?_) fun _ _ => rfl
  by_cases hreal : id ∈ s.dummySeqIds
  · -- a dummy is in no queue
    have hzero := h id
    rw [if_neg (by simp [hdum id hreal]), Nat.add_eq_zero_iff] at hzero
    have hnone : (s.real r.filteredDpGroupSeqIds.flatten).count id = 0 :=
      List.count_eq_zero.2 fun hmem => (mem_real.1 hmem).2 hreal
    have hle : totalCount s.dp (fun d => (s.running d).filter
        (fun id => decide (id ∉ scheduledIds s.group r.filteredDpGroupSeqIds d))) id ≤
          totalCount s.dp s.running id :=
      Finset.sum_le_sum fun d _ => List.filter_sublist.count_le id
    have hq := hzero.1
    rw [hnone, hq, List.count_nil]
    unfold queueCount Scheduler.dp at *
    dsimp only
    omega
  -- rank by rank: what is listed and what is left of the queue make up the queue
  · have hrank : ∀ d ∈ Finset.range s.dp,
        ((s.running d).filter (fun id => decide (id ∉ scheduledIds s.group r.filteredDpGroupSeqIds d))).count id
          + (r.dpSeqIds.getD d []).count id = (s.running d).count id := by
      intro d hd
      have hd := Finset.mem_range.1 hd
      have hpart := (List.forall₂_iff_get.1 hruns).2 d (by simpa using hd) (by omega)
      have hget : r.dpSeqIds.getD d [] = r.dpSeqIds.get ⟨d, by omega⟩ := by simp [List.getD, hlen, hd]
      have hcount : (s.real (r.dpSeqIds.getD d [])).count id = (r.dpSeqIds.getD d []).count id :=
        List.count_filter (by simpa using hreal)
      have hfilter :
        ((s.running d).filter (fun id => decide (id ∉ scheduledIds s.group r.filteredDpGroupSeqIds d))).count id
          = ((s.running d).filter (fun id => decide (id ∉ s.real (r.dpSeqIds.getD d [])))).count id := by
        refine count_filter_congr ?_ _
        rw [decide_eq_decide, hgrouped.scheduled d hd id hreal, mem_real]
        simp [hreal]
      rw [← hcount, hfilter, hget]
      refine count_filter_notMem ?_ hpart.1 fun b hb => by simpa using hpart.2 b hb
      have := h.le_one id
      have := count_running_le hd id
      omega
    have htotal := Finset.sum_congr rfl hrank
    rw [Finset.sum_add_distrib] at htotal
    have hcount : (s.real r.filteredDpGroupSeqIds.flatten).count id = r.dpSeqIds.flatten.count id := by
      rw [← hgrouped.count id hreal]
      exact List.count_filter (by simpa using hreal)
    rw [hcount, count_flatten, hlen]
    unfold queueCount totalCount Scheduler.dp at *
    rw [List.count_nil]
    dsimp only
    omega

theorem OneQueue.postprocessImpl [Xxh3] (h : OneQueue L [] s) (hdum : ∀ id ∈ s.dummySeqIds, id ∉ L)
    (hgrouped : Grouped s r) (hruns : ResultRuns s (List.range s.dp) r.dpSeqIds) {rows : List (List (List ℤ))}
    (hrows : r.rowsMatch rows = true) (logprobs : List (List (List ℚ))) :
    OneQueue L [] (s.postprocessImpl r.filteredDpGroupSeqIds rows logprobs) ∧
      (s.postprocessImpl r.filteredDpGroupSeqIds rows logprobs).config = s.config ∧
      (s.postprocessImpl r.filteredDpGroupSeqIds rows logprobs).dummySeqIds = s.dummySeqIds :=
  OneQueue.postprocessGroups 0 r.filteredDpGroupSeqIds (of_decide_eq_true hrows) logprobs
    (h.takeScheduled hdum hgrouped hruns) (by rw [Nat.zero_add, hgrouped.length]; exact Nat.le_refl _)

end postprocess

/-! ## The invariant of the call system -/

structure CallInv (config : SchedulerConfig) (x : OpState) : Prop where
  config : x.sched.config = config
  one : OneQueue x.live [] x.sched
  reserved : ∀ id ∈ x.sched.dummySeqIds, x.sched.isReservedId id = true
  fresh : ∀ id ∈ x.live, x.sched.isReservedId id = false
  grouped : ∀ r, x.last = some r → Grouped x.sched r
  runs : ∀ r, x.last = some r → ResultRuns x.sched (List.range x.sched.dp) r.dpSeqIds

namespace CallInv

variable {config : SchedulerConfig} {x x' : OpState}

theorem init (config : SchedulerConfig) : CallInv config (OpState.init config) where
  config := rfl
  one := fun id => by simp [OpState.init, Scheduler.new, queueCount, totalCount, Scheduler.unfinished]
  reserved := fun _ h => absurd h (Finset.notMem_empty _)
  fresh := fun _ h => absurd h (Finset.notMem_empty _)
  grouped := fun _ h => by cases h
  runs := fun _ h => by cases h

/-- Queues, dummies and statuses are unchanged. -/
theorem congr {s : Scheduler} (h : CallInv config x) (hs : SameQueues x.sched s)
    (hu : ∀ id, id ∈ x.live → s.unfinished id = x.sched.unfinished id) :
      CallInv config { x with sched := s } where
  config := hs.config.trans h.config
  one := h.one.move (fun id => by rw [queueCount_congr hs]) hu
  reserved := fun id hid => (isReservedId_congr hs.config id).trans (h.reserved id (hs.dummySeqIds ▸ hid))
  fresh := fun id hid => (isReservedId_congr hs.config id).trans (h.fresh id hid)
  grouped := fun r hr => (h.grouped r hr).congr hs.config hs.dummySeqIds
  runs := fun r hr => by
    have hdp : s.dp = x.sched.dp := congrArg SchedulerConfig.dp hs.config
    dsimp only
    rw [hdp]
    exact (h.runs r hr).mono (hs.dummySeqIds ▸ fun _ h => h) fun d _ => by rw [hs.running]

theorem swapFrame {s : Scheduler} (h : CallInv config x) (hs : SwapFrame x.sched s) :
    CallInv config { x with sched := s } :=
  h.congr hs.toSameQueues fun id _ => unfinished_congr (fun _ _ hab => hab.status) hs.table id

/-- A new id is put into one queue. -/
theorem add {seq : Sequence} (h : CallInv config x) (hseq : seq.status ≠ .finished) (hx : x.add seq = some x') :
    CallInv config x' := by
  unfold OpState.add at hx
  split at hx
  case isTrue => cases hx
  case isFalse hfree =>
    simp only [Bool.or_eq_true, not_or, Bool.not_eq_true] at hfree
    have hzero : queueCount x.sched seq.seqId = 0 := by
      have := h.one seq.seqId
      have hdead : (decide (seq.seqId ∈ x.live) && x.sched.unfinished seq.seqId) = false := hfree.1
      rw [hdead] at this
      simpa using this
    have hadd := addSequence_spec x.sched seq
    cases hx
    refine ⟨hadd.config.trans h.config, fun id => ?_, fun id hid => ?_, fun id hid => ?_,
      fun r hr => ?_, fun r hr => ?_⟩
    · rw [hadd.queueCount id]
      by_cases hid : id = seq.seqId
      · subst hid
        have hnew : (x.sched.addSequence seq).unfinished seq.seqId = true := by
          simp [Scheduler.unfinished, hadd.seqTable, hseq]
        simp [hzero, hnew]
      · have hold : (x.sched.addSequence seq).unfinished id = x.sched.unfinished id := by
          simp [Scheduler.unfinished, hadd.seqTable, Function.update_of_ne hid]
        have hsing : [seq.seqId].count id = 0 := List.count_eq_zero.2 (by simpa using hid)
        have := h.one id
        simpa [hsing, hold, hid] using this
    · exact (isReservedId_congr hadd.config id).trans (h.reserved id (hadd.dummySeqIds ▸ hid))
    · rw [isReservedId_congr hadd.config]
      rcases Finset.mem_insert.1 hid with rfl | hid
      · exact hfree.2
      · exact h.fresh id hid
    · exact (h.grouped r hr).congr hadd.config hadd.dummySeqIds
    · have hdp : (x.sched.addSequence seq).dp = x.sched.dp := congrArg SchedulerConfig.dp hadd.config
      dsimp only
      rw [hdp]
      exact (h.runs r hr).mono (hadd.dummySeqIds ▸ fun _ h => h) fun d _ => by rw [hadd.running]

theorem abort {seqId : ℕ} (h : CallInv config x) (hout : x.isOutstanding seqId = false) :
    CallInv config { x with
      sched := (x.sched.abortImpl seqId).2
      live := if (x.sched.abortImpl seqId).1 then x.live.erase seqId else x.live } := by
  cases hfound : (x.sched.abortImpl seqId).1 with
  | false =>
    rw [abortImpl_not_found hfound]
    exact h
  | true =>
    have hab := abortImpl_found hfound
    refine ⟨hab.config.trans h.config, fun id => ?_,
      fun id hid => (isReservedId_congr hab.config id).trans (h.reserved id (hab.dummySeqIds ▸ hid)),
        fun id hid => ?_,
      fun r hr => (h.grouped r hr).congr hab.config hab.dummySeqIds, fun r hr => ?_⟩
    · have hunf : (x.sched.abortImpl seqId).2.unfinished id = x.sched.unfinished id := by
        unfold Scheduler.unfinished
        rw [hab.seqTable]
      have hone := h.one id
      dsimp only
      rw [hab.queueCount, hunf]
      by_cases hid : id = seqId
      · simp [hid]
      · simpa [hid] using hone
    · rw [isReservedId_congr hab.config]
      exact h.fresh id (Finset.mem_of_mem_erase (by simpa using hid))
    -- no step is under way that lists the id, so the results that are out keep their queues
    · have hnot : ∀ ids ∈ r.dpSeqIds, seqId ∉ ids := by
        unfold OpState.isOutstanding at hout
        rw [hr] at hout
        simpa using hout
      have hdp : (x.sched.abortImpl seqId).2.dp = x.sched.dp := congrArg SchedulerConfig.dp hab.config
      have hreal : ∀ ids, (x.sched.abortImpl seqId).2.real ids = x.sched.real ids := fun ids => by
        unfold real
        rw [hab.dummySeqIds]
      dsimp only
      rw [hdp]
      unfold ResultRuns
      rw [List.forall₂_iff_get]
      have hruns := List.forall₂_iff_get.1 (h.runs r hr)
      refine ⟨hruns.1, fun i h₁ h₂ => ?_⟩
      rw [hreal]
      refine ⟨(hruns.2 i h₁ h₂).1, fun id hid => ?_⟩
      rw [hab.running]
      refine List.mem_filter.2 ⟨(hruns.2 i h₁ h₂).2 id hid, decide_eq_true fun heq => ?_⟩
      exact hnot _ (List.get_mem _ ⟨i, h₂⟩) (heq ▸ (mem_real.1 hid).1)

/-- A migrated sequence is finished and leaves `to_be_migrated`. -/
theorem freeMigrated {seqId : ℕ} (h : CallInv config x) (hmig : (x.sched.toBeMigrated seqId).isSome = true) :
    CallInv config { x with sched := x.sched.freeToBeMigratedIdsImpl [seqId] } := by
  have hfreed := freeToBeMigrated_spec hmig
  have hq := hfreed.queueCount hmig
  have hpos : 0 < queueCount x.sched seqId + ([] : List ℕ).count seqId := by
    rw [← hq seqId, List.count_singleton_self]
    omega
  obtain ⟨seq, hseq, -⟩ := exists_of_unfinished (h.one.live_of_pos hpos).2
  refine ⟨hfreed.config.trans h.config, ?_,
    fun id hid => (isReservedId_congr hfreed.config id).trans (h.reserved id (hfreed.dummySeqIds ▸ hid)),
    fun id hid => (isReservedId_congr hfreed.config id).trans (h.fresh id hid),
    fun r hr => (h.grouped r hr).congr hfreed.config hfreed.dummySeqIds, fun r hr => ?_⟩
  · have hone :
      OneQueue x.live [seqId] { x.sched with toBeMigrated := Function.update x.sched.toBeMigrated seqId none } :=
      h.one.move (fun id => ?_) fun _ _ => rfl
    refine hone.finish (fun id => ?_) ?_ fun id hid => ?_
    · unfold queueCount Scheduler.dp
      rw [hfreed.config, hfreed.waiting, hfreed.waitingMigration, hfreed.running,
        hfreed.prefilling, hfreed.toBeMigrated]
    · simp [Scheduler.unfinished, hfreed.seqTable, hseq]
    · simp [Scheduler.unfinished, hfreed.seqTable, Function.update_of_ne hid]
    · rw [List.count_nil, Nat.add_zero, ← hq id]
      unfold queueCount Scheduler.dp
      rw [hfreed.config, hfreed.waiting, hfreed.waitingMigration, hfreed.running,
        hfreed.prefilling, hfreed.toBeMigrated]
  · have hdp : (x.sched.freeToBeMigratedIdsImpl [seqId]).dp = x.sched.dp := congrArg SchedulerConfig.dp hfreed.config
    dsimp only
    rw [hdp]
    exact (h.runs r hr).mono (hfreed.dummySeqIds ▸ fun _ h => h) fun d _ => by rw [hfreed.running]

variable [Xxh3]

theorem schedule (h : CallInv config x) {s : Scheduler} {r : ScheduleResult}
    (hpass : x.sched.prefillPasses queueTest = true) (hs : x.sched.schedule = (.ok r, s)) :
    CallInv config { x with sched := s, last := some r } := by
  obtain ⟨hinv, hgrouped, hconfig⟩ := schedule_passInv h.one h.reserved h.fresh hpass hs
  refine ⟨hconfig.trans h.config, hinv.one, hinv.dummies,
    fun id hid => (isReservedId_congr hconfig id).trans (h.fresh id hid), fun r' hr' => ?_, fun r' hr' => ?_⟩
  · cases hr'
    exact hgrouped
  · cases hr'
    exact hinv.runs

theorem postprocess (h : CallInv config x) {r : ScheduleResult} (hr : x.last = some r) {rows : List (List (List ℤ))}
    (hrows : r.rowsMatch rows = true) (logprobs : List (List (List ℚ))) :
    CallInv config { x with
      sched := x.sched.postprocessImpl r.filteredDpGroupSeqIds rows logprobs
      last := none } := by
  have hdum : ∀ id ∈ x.sched.dummySeqIds, id ∉ x.live := fun id hid hlive => by
    have hres := h.reserved id hid
    rw [h.fresh id hlive] at hres
    cases hres
  obtain ⟨hone, hconfig, hdums⟩ := h.one.postprocessImpl hdum (h.grouped r hr) (h.runs r hr) hrows logprobs
  refine ⟨hconfig.trans h.config, hone,
    fun id hid => (isReservedId_congr hconfig id).trans (h.reserved id (hdums ▸ hid)),
    fun id hid => (isReservedId_congr hconfig id).trans (h.fresh id hid), fun r' hr' => ?_,
      fun r' hr' => ?_⟩ <;> cases hr'

end CallInv

/-! ## Runs -/

section runs

variable [Xxh3]

/-- The tries of a `schedule` call pass `queueTest`. -/
def queueGuard : OpState → SchedulerOp → Bool
  | x, .schedule => x.sched.prefillPasses queueTest
  | _, _ => true

theorem callInv_invariant (config : SchedulerConfig) :
    Invariant (callSystem config) queueGuard (CallInv config) where
  initial := by
    rintro x rfl
    exact CallInv.init config
  next := by
    intro x op x' h hguard hnext
    cases OpState.step_of_next hnext with
    | added request hadd => exact h.add (by simp [requestToSequence, Sequence.new]) hadd
    | handedOver request hover hadd =>
      refine h.add ?_ hadd
      simp only [WireRequestMigrate.handedOver, Bool.and_eq_true, decide_eq_true_eq] at hover
      simp [migrateRequestToSequence, hover.1.1.1]
    | scheduled hs => exact h.schedule hguard hs
    | swappedOut => exact h.swapFrame (cacheCompleteHostSwapOuts_frame x.sched _)
    | swappedIn => exact h.swapFrame (cacheCompleteHostSwapIns_frame x.sched _)
    | postprocessed rows logprobs hr hrows => exact h.postprocess hr hrows logprobs
    | aborted hout => exact h.abort hout
    | freed hmig => exact h.freeMigrated hmig
    | toggled => exact h.swapFrame (SwapFrame.cache _ _)

/-- **Every live sequence is in exactly one queue**, in every state of a run whose `schedule` calls pass the guard. -/
theorem live_queued_once (config : SchedulerConfig) (x : OpState)
    (hx : Reachable (callSystem config) queueGuard x) (seqId : ℕ) (hlive : x.isLive seqId = true) :
    queueCount x.sched seqId = 1 := by
  have h := ((callInv_invariant config).holds hx).one seqId
  rw [show (decide (seqId ∈ x.live) && x.sched.unfinished seqId) = true from hlive] at h
  simpa using h

end runs

/-! ## Evaluated runs -/

section evaluated

attribute [local instance] codeHash

/-- Three blocks of four tokens: two prompts of seven tokens do not fit together. -/
def crowdedConfig : SchedulerConfig where
  maxNumSeqs := 8
  maxNumBatchedTokens := 64
  maxModelLen := 100
  numKvcacheBlocks := 3
  kvcacheBlockSize := 4

def crowdedRequest (seqId : ℕ) : SchedulerOp :=
  .addRequest { seqId := seqId, promptTokenIds := [1, 2, 3, 4, 5, 6, 10 + seqId] }

/-- A sequence that is running is preempted for a new one. -/
theorem live_queued_once_preempted : ∃ x, Reachable (callSystem crowdedConfig) queueGuard x ∧
    x.isLive 0 = true ∧ x.sched.waiting = [0, 1] ∧ queueCount x.sched 0 = 1 := by
  obtain ⟨x, hx, hlive⟩ := Reachable.exists_of_run (T := callSystem crowdedConfig) (G := queueGuard)
    (P := fun x => x.isLive 0 && decide (x.sched.waiting = [0, 1])) (s := OpState.init crowdedConfig)
    [crowdedRequest 0, .schedule, .postprocess [[[5]]] [], crowdedRequest 1, .schedule] rfl (by decide +kernel)
  simp only [Bool.and_eq_true, decide_eq_true_eq] at hlive
  exact ⟨x, hx, hlive.1, hlive.2, live_queued_once crowdedConfig x hx 0 hlive.1⟩

/-- Admitted and preempted in one call, sequence `0` is in `waiting`; postprocessing also puts it into `running`. -/
theorem not_live_queued_once : ¬ ∀ config : SchedulerConfig, config.group = 1 → ∀ x : OpState,
    Reachable (callSystem config) always x → ∀ seqId, x.isLive seqId = true → queueCount x.sched seqId = 1 := by
  intro h
  obtain ⟨x, hx, hP⟩ := Reachable.exists_of_run (T := callSystem crowdedConfig) (G := always)
    (P := fun x => x.isLive 0 && decide (queueCount x.sched 0 = 2)) (s := OpState.init crowdedConfig)
    [crowdedRequest 0, crowdedRequest 1, .schedule, .postprocess [[[5]]] []] rfl (by decide +kernel)
  simp only [Bool.and_eq_true, decide_eq_true_eq] at hP
  have := h crowdedConfig rfl x hx 0 hP.1
  omega

end evaluated

end NanoEngine
