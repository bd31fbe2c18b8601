import NanoEngine.Scheduler.Lifecycle

/-!
# NanoEngine.Scheduler.Schedule — one scheduling decision

`rust/src/scheduler/schedule.rs` and `Scheduler::schedule`: continuations of chunked prefills, the admission loop,
the decode pass and the schedule result.

* The local vectors of `schedule_prefill` are the fields of `PrefillState`, those of `schedule_decode` the fields of
  `DecodeState`.
* The admission loop runs with a fuel that `admissionFuel` bounds; `Scheduler.Admission` proves that it never runs
  out.
-/

namespace NanoEngine

/-- `mark_scheduled`. -/
def Scheduler.markScheduled (s : Scheduler) (seqId : ℕ) : Scheduler :=
  s.updateSeq seqId (fun seq => { seq with lastScheduledStep := s.currentStep })

/-- The scheduler and the local variables of `schedule_prefill`, indexed by rank (and group). -/
structure PrefillState where
  sched : Scheduler
  numSeqs : ℕ → ℕ → ℤ
  numTokens : ℕ → ℕ → ℤ
  scheduled : ℕ → List ℕ

namespace PrefillState

def init (s : Scheduler) : PrefillState := ⟨s, fun _ _ => 0, fun _ _ => 0, fun _ => []⟩

def withSched (st : PrefillState) (s : Scheduler) : PrefillState := { st with sched := s }

/-- A sequence joins the batch of a rank: the counters, `running` and the result. -/
def join (st : PrefillState) (dpIdx groupId seqId : ℕ) (newTokens : ℤ) : PrefillState where
  sched := (st.sched.pushRunning dpIdx seqId).markScheduled seqId
  numSeqs := Function.update st.numSeqs dpIdx
    (Function.update (st.numSeqs dpIdx) groupId (st.numSeqs dpIdx groupId + 1))
  numTokens := Function.update st.numTokens dpIdx
    (Function.update (st.numTokens dpIdx) groupId (st.numTokens dpIdx groupId + newTokens))
  scheduled := Function.update st.scheduled dpIdx (st.scheduled dpIdx ++ [seqId])

/-! ## Continuations -/

/-- One continuation of a chunked prefill.  The local `rest` is the emptied queue `prefilling[dp_idx]` itself. -/
def continueSeq (dpIdx : ℕ) (st : PrefillState) (seqId : ℕ) : PrefillState :=
  match st.sched.seqTable seqId with
  | none => st
  | some seq =>
    let s := st.sched
    let groupId := s.groupOf seq
    let cur := seq.numTokens
    let budget := max s.config.maxNumBatchedTokens 1 - st.numTokens dpIdx groupId
    let newTokens := max (min (Scheduler.promptTarget seq - cur) budget) 0
    if newTokens ≤ 0 then
      st.withSched (s.pushPrefilling dpIdx seqId)
    else
      let dispatch := s.dispatchForMaster groupId (cur + newTokens)
      let s := s.updateSeq seqId (fun seq => seq.continueWith newTokens dispatch)
      (st.withSched s).join dpIdx groupId seqId newTokens

/-- `std::mem::take(&mut self.prefilling[dp_idx])`. -/
def takePrefilling (st : PrefillState) (dpIdx : ℕ) : PrefillState :=
  st.withSched { st.sched with prefilling := Function.update st.sched.prefilling dpIdx [] }

/-- The continuations of one rank. -/
def continueRank (st : PrefillState) (dpIdx : ℕ) : PrefillState :=
  (st.sched.prefilling dpIdx).foldl (continueSeq dpIdx) (st.takePrefilling dpIdx)

def continueAll (st : PrefillState) : PrefillState := (List.range st.sched.dp).foldl continueRank st

end PrefillState

/-- What an admission is computed to do: the group, `full_len`, `cached` and `new_tokens`. -/
structure Admission where
  master : ℕ
  fullLen : ℤ
  cached : ℤ
  newTokens : ℤ

namespace Scheduler

/-! ## Admission of one sequence on one rank -/

/-- The two early returns of `try_allocate_prefill`: no free state slot, no free HiSparse slot. -/
def slotsExhausted (s : Scheduler) (seqId dpIdx : ℕ) : Bool :=
  ((s.config.needsMtpHandoff || s.config.cachePlan.hasState) && !s.cache.canEnsureStateSlot s.dp seqId dpIdx)
    || (s.config.cachePlan.hisparse && !s.cache.canEnsureHisparseSlot s.dp seqId dpIdx)

/-- `full_len`: a decode engine takes the whole migrated sequence, the others compute up to the target. -/
def fullLen (s : Scheduler) (seq : Sequence) : ℤ :=
  if s.config.mode = .decode then seq.numTokens else promptTarget seq

/-- `new_tokens`: what the admission schedules of the sequence. -/
def newPrefillTokens (s : Scheduler) (fullLen cached budget : ℤ) : ℤ :=
  if s.config.mode = .decode then max fullLen 1 else max (min (fullLen - cached) budget) 0

/-- The prefix cache is asked for an admission. -/
def asksPrefixCache (s : Scheduler) : Bool :=
  decide (s.config.mode ≠ .decode) && decide (s.group = 1) && s.cache.prefixCachingEnabled

variable [Xxh3]

/-- `cached`: the tokens already in the cache.  When the prefix cache is asked, its answer is also recorded in the
sequence. -/
def admissionCached (s : Scheduler) (seqId : ℕ) (seq : Sequence) (dpIdx master : ℕ) : ℤ × Scheduler :=
  if s.asksPrefixCache then
    let r := s.cacheCachedTokensForPrefix (s.flatIdx dpIdx master) seq.tokenIds (s.fullLen seq)
    (r.1, r.2.updateSeq seqId (fun seq => { seq with numCachedTokens := r.1, prefillStartOffset := r.1 }))
  else (if s.config.mode = .decode then seq.numTokens else seq.numCachedTokens, s)

omit [Xxh3] in
/-- The assignment and the sequence fields written before the blocks are reserved. -/
def beginAdmission (s : Scheduler) (seqId dpIdx master : ℕ) (cached chunkEnd : ℤ)
    (dispatch : List ℤ) : Scheduler :=
  let s := s.setCache (s.cache.assignSeq seqId dpIdx master)
  s.updateSeq seqId (fun seq =>
    let seq := { seq with
      activeDpIdx := dpIdx
      activeGroupId := master
      status := .running
      activeDispatchedTokens := dispatch }
    if s.config.mode = .decode then seq
    else { seq with
      migrateGroupId := master
      prefillStartOffset := cached
      numTokens := chunkEnd })

/-- The loop over `dispatch.iter().enumerate()`, from group `gid` on. -/
def ensureDispatched (seqId dpIdx : ℕ) : ℕ → List ℤ → Scheduler → Except PyErr Unit × Scheduler
  | _, [], s => (.ok (), s)
  | gid, count :: dispatch, s =>
    if count > 0 then
      match s.cacheEnsureGroupBlocks seqId dpIdx gid count (decide (s.config.mode ≠ .decode)) with
      | (.error e, s) => (.error e, s)
      | (.ok _, s) => ensureDispatched seqId dpIdx (gid + 1) dispatch s
    else ensureDispatched seqId dpIdx (gid + 1) dispatch s

omit [Xxh3] in
/-- What a failed reservation undoes. -/
def cancelAdmission (s : Scheduler) (seqId : ℕ) : Scheduler :=
  let s := s.setCache (s.cache.removeAssignment seqId)
  s.updateSeq seqId (fun seq => { seq with
    status := .waiting
    activeBlockTable := []
    activeBlockTables := fun _ => none })

omit [Xxh3] in
/-- Slots, pages and migration fields of an admission whose blocks are reserved. -/
def finishAdmission (s : Scheduler) (seqId master : ℕ) (fullLen cached : ℤ) : Except PyErr Unit × Scheduler :=
  let s := s.updateSeq seqId (fun seq =>
    if s.config.mode = .decode then { seq with activeGroupId := master }
    else { seq with activeGroupId := master, migrateGroupId := master })
  match s.cacheEnsureSlotsAndPages seqId fullLen with
  | (.error e, s) => (.error e, s)
  | (.ok (), s) =>
    let s := if s.config.mode = .decode then s else s.attachMigrateSlots seqId
    (.ok (), s.setCache (s.cache.setPrefixCachedTokens seqId cached))

/-- The part of `try_allocate_prefill` before the blocks are reserved: either it returns `None`, or the admission
goes on with what is computed here. -/
def prepareAdmission (s : Scheduler) (seqId dpIdx : ℕ) (batchSeqs batchTokens : ℕ → ℤ) :
    Option Admission × Scheduler :=
  match s.seqTable seqId with
  | none => (none, s)
  | some seq =>
    if s.slotsExhausted seqId dpIdx then (none, s)
    else match s.chooseMasterGroup dpIdx batchSeqs batchTokens with
      | none => (none, s)
      | some master =>
        let fullLen := s.fullLen seq
        let r := s.admissionCached seqId seq dpIdx master
        let budget := max (max s.config.maxNumBatchedTokens 1 - batchTokens master) 0
        if budget ≤ 0 then (none, r.2)
        else
          let newTokens := s.newPrefillTokens fullLen r.1 budget
          if newTokens ≤ 0 then (none, r.2) else (some ⟨master, fullLen, r.1, newTokens⟩, r.2)

/-- The assignment, the sequence fields and the blocks of an admission. -/
def reserveAdmission (s : Scheduler) (seqId dpIdx : ℕ) (a : Admission) : Except PyErr Unit × Scheduler :=
  let dispatch := s.computeDispatch dpIdx a.master a.fullLen
  ensureDispatched seqId dpIdx 0 dispatch
    (s.beginAdmission seqId dpIdx a.master a.cached (a.cached + a.newTokens) dispatch)

/-- `try_allocate_prefill`; a reservation that fails preempts one sequence of the rank instead. -/
def tryAllocatePrefill (s : Scheduler) (seqId dpIdx : ℕ) (batchSeqs batchTokens : ℕ → ℤ) :
    Except PyErr (Option ℤ) × Scheduler :=
  match s.prepareAdmission seqId dpIdx batchSeqs batchTokens with
  | (none, s) => (.ok none, s)
  | (some a, s) =>
    match s.reserveAdmission seqId dpIdx a with
    | (.error e, s) =>
      match (s.cancelAdmission seqId).preemptOneForAllocation dpIdx seqId with
      | (true, s) => (.ok none, s)
      | (false, s) => (.error e, s)
    | (.ok (), s) =>
      match s.finishAdmission seqId a.master a.fullLen a.cached with
      | (.error e, s) => (.error e, s)
      | (.ok (), s) => (.ok (some a.newTokens), s)

end Scheduler

/-! ## The admission loop -/

namespace PrefillState

/-- The queue that admission reads: `waiting_migration` on a decode engine, else `waiting`. -/
def queue (st : PrefillState) : List ℕ :=
  if st.sched.config.mode = .decode then st.sched.waitingMigration else st.sched.waiting

/-- `remove(0)` on that queue. -/
def popQueue (st : PrefillState) : PrefillState :=
  st.withSched (if st.sched.config.mode = .decode then
      { st.sched with waitingMigration := st.sched.waitingMigration.tail }
    else { st.sched with waiting := st.sched.waiting.tail })

/-- The affinity bookkeeping after a placement. -/
def notePlaced (st : PrefillState) (dpIdx seqId : ℕ) : PrefillState :=
  let s := st.sched
  let affinity := ((s.seqTable seqId).map (·.affinityKey)).getD 0
  st.withSched (s.setCache { s.cache with
    sessionAffinity := if affinity ≠ 0 then Function.update s.cache.sessionAffinity affinity (some dpIdx)
      else s.cache.sessionAffinity
    sessionWait := Function.update s.cache.sessionWait seqId none })

/-- A restored sequence goes to `running`, not into the result. -/
def placeRestored (st : PrefillState) (dpIdx seqId : ℕ) : PrefillState :=
  ((st.popQueue).withSched (st.popQueue.sched.pushRunning dpIdx seqId)).notePlaced dpIdx seqId

/-- An admitted sequence goes to `running` and into the result. -/
def placeAdmitted (st : PrefillState) (dpIdx seqId : ℕ) (newTokens : ℤ) : PrefillState :=
  (st.popQueue.join dpIdx (st.sched.groupOfId seqId) seqId newTokens).notePlaced dpIdx seqId

variable [Xxh3]

/-- The `for dp_idx in self.route_candidates(..)` loop for the sequence at the head of the queue: `true` when a
rank took it. -/
def tryCandidates (seqId : ℕ) : List ℕ → PrefillState → Except PyErr Bool × PrefillState
  | [], st => (.ok false, st)
  | dpIdx :: ranks, st =>
    if st.sched.cacheSeqHasHostBlocks seqId then
      match st.sched.cacheTryRestoreHostBlocks seqId dpIdx with
      | (.error e, s) => (.error e, st.withSched s)
      | (.ok true, s) => (.ok true, (st.withSched s).placeRestored dpIdx seqId)
      | (.ok false, s) => tryCandidates seqId ranks (st.withSched s)
    else
      match st.sched.tryAllocatePrefill seqId dpIdx (st.numSeqs dpIdx) (st.numTokens dpIdx) with
      | (.error e, s) => (.error e, st.withSched s)
      | (.ok (some newTokens), s) => (.ok true, (st.withSched s).placeAdmitted dpIdx seqId newTokens)
      | (.ok none, s) => tryCandidates seqId ranks (st.withSched s)

/-- The `loop` of `schedule_prefill`: admit from the head of the queue until nothing can be placed. -/
def admitLoop : ℕ → PrefillState → Except PyErr Unit × PrefillState
  | 0, st => (.ok (), st)
  | fuel + 1, st =>
    match st.queue.head? with
    | none => (.ok (), st)
    | some seqId =>
      let routed := st.sched.routeCandidates seqId
      match tryCandidates seqId routed.1 (st.withSched routed.2) with
      | (.error e, st) => (.error e, st)
      | (.ok false, st) => (.ok (), st)
      | (.ok true, st) => admitLoop fuel st

omit [Xxh3] in
/-- Enough fuel: an admission takes a place of the batch and requeues at most one sequence a rank, a restore
shortens the queue. -/
def admissionFuel (st : PrefillState) : ℕ :=
  let places := (max st.sched.config.maxNumSeqs 1).toNat * st.sched.group * st.sched.dp
  (st.sched.dp + 1) * places + st.queue.length + 1

end PrefillState

/-! ## The schedule result -/

namespace Scheduler

/-- The sequences of a rank with the dispatch of more than one group. -/
def spreadSeqs (s : Scheduler) (seqIds : List ℕ) : List Sequence :=
  (seqIds.filterMap s.seqTable).filter
    (fun seq => decide (1 < (seq.activeDispatchedTokens.filter (fun count => decide (count > 0))).length))

/-- `make_schedule_result`. -/
def makeScheduleResult (s : Scheduler) (dpSeqIds : List (List ℕ)) (isPrefill : Bool) : ScheduleResult :=
  let rank := fun d : ℕ => dpSeqIds.getD d []
  let spread := fun d : ℕ => s.spreadSeqs (rank d)
  let holds := fun (gid : ℕ) (seq : Sequence) => decide (seq.activeDispatchedTokens.getD gid 0 > 0)
  let waitQueue := if s.config.mode = .decode then s.waitingMigration else s.waiting
  { dpSeqIds := dpSeqIds
    dpGroupSeqIds := (List.range s.dp).flatMap (fun d => (List.range s.group).map (fun _ => rank d))
    filteredDpGroupSeqIds := (List.range s.dp).flatMap (fun d => (List.range s.group).map (fun gid =>
      (rank d).filter (fun seqId => ((s.seqTable seqId).map (fun seq => decide (s.groupOf seq = gid))).getD false)))
    isPrefill := isPrefill
    groupSendCounts := fun d gid => ((spread d).filter (fun seq => decide (s.groupOf seq = gid))).length
    groupRecvCounts := fun d gid => ((spread d).filter (holds gid)).length
    groupQMatrix := fun d master gid =>
      ((spread d).filter (fun seq => decide (s.groupOf seq = master) && holds gid seq)).length
    waitingHeadBlocks := match waitQueue.head? with
      | none => 0
      | some head => s.blocksNeededForTokens (s.numTokensOf head)
    waitingTotalBlocks := (waitQueue.map (fun seqId => s.blocksNeededForTokens (s.numTokensOf seqId))).foldl (· + ·) 0
    swapOutTasks := (List.range (s.dp * s.group)).map s.cache.pendingSwapOutTasks
    swapInTasks := (List.range (s.dp * s.group)).map s.cache.pendingSwapInTasks }

end Scheduler

/-! ## Decode -/

structure DecodeState where
  sched : Scheduler
  skipped : List ℕ
  scheduled : List ℕ
  perGroup : ℕ → ℤ
  groupLens : ℕ → ℤ

namespace Scheduler

variable [Xxh3]

/-- `schedule_prefill`. -/
def schedulePrefill (s : Scheduler) : Except PyErr (List (List ℕ)) × Scheduler :=
  let st := (PrefillState.init s).continueAll
  match PrefillState.admitLoop st.admissionFuel st with
  | (.error e, st) => (.error e, st.sched)
  | (.ok (), st) => (.ok ((List.range st.sched.dp).map st.scheduled), st.sched)

/-- One sequence of the running queue of a rank. -/
def decodeSeq (dpIdx : ℕ) (st : DecodeState) (seqId : ℕ) : DecodeState :=
  let groupId := st.sched.groupOfId seqId
  if st.perGroup groupId ≥ max st.sched.config.maxNumSeqs 1 then { st with skipped := st.skipped ++ [seqId] }
  else match st.sched.cacheEnsureBlocksForSeq seqId false with
    | (.error _, s) => { st with sched := s.preemptImpl dpIdx seqId }
    | (.ok (), s) =>
      { sched := s.markScheduled seqId
        skipped := st.skipped ++ [seqId]
        scheduled := st.scheduled ++ [seqId]
        perGroup := Function.update st.perGroup groupId (st.perGroup groupId + 1)
        groupLens := Function.update st.groupLens groupId (st.groupLens groupId + s.numTokensOf seqId) }

omit [Xxh3] in
/-- The dummies of the groups of a rank that have nothing to decode. -/
def decodeDummies (dpIdx : ℕ) (groupLens : ℕ → ℤ) : List ℕ → Scheduler → List ℕ × Scheduler
  | [], s => ([], s)
  | groupId :: groupIds, s =>
    if groupLens groupId = 0 ∧ s.group > 1 then
      let r := s.makeDummySeqId dpIdx groupId
      let rest := decodeDummies dpIdx groupLens groupIds r.2
      (r.1 :: rest.1, rest.2)
    else decodeDummies dpIdx groupLens groupIds s

omit [Xxh3] in
/-- The decode pass of a rank starts with `std::mem::take(&mut self.running[dp_idx])`. -/
def decodeStart (s : Scheduler) (dpIdx : ℕ) : DecodeState :=
  ⟨{ s with running := Function.update s.running dpIdx [] }, [], [], fun _ => 0, fun _ => 0⟩

/-- The decode pass of one rank. -/
def decodeRank (s : Scheduler) (dpIdx : ℕ) : List ℕ × Scheduler :=
  let st := (s.running dpIdx).foldl (decodeSeq dpIdx) (s.decodeStart dpIdx)
  let s := { st.sched with running := Function.update st.sched.running dpIdx st.skipped }
  let dummies := decodeDummies dpIdx st.groupLens (List.range s.group) s
  (st.scheduled ++ dummies.1, dummies.2)

/-- The loop of `schedule_decode` over the ranks. -/
def decodeRanks : List ℕ → Scheduler → List (List ℕ) × Scheduler
  | [], s => ([], s)
  | dpIdx :: ranks, s =>
    let r := s.decodeRank dpIdx
    let rest := decodeRanks ranks r.2
    (r.1 :: rest.1, rest.2)

/-- `schedule_decode`: an allocation failure preempts the sequence itself, so it never fails. -/
def scheduleDecode (s : Scheduler) : List (List ℕ) × Scheduler := decodeRanks (List.range s.dp) s

/-- `schedule`: prefill work first, a decode pass only when there is none. -/
def schedule (s : Scheduler) : Except PyErr ScheduleResult × Scheduler :=
  match { s with currentStep := s.currentStep + 1 }.schedulePrefill with
  | (.error e, s) => (.error e, s)
  | (.ok prefill, s) =>
    if prefill.any (fun seqs => !seqs.isEmpty) then (.ok (s.makeScheduleResult prefill true), s)
    else
      let r := s.scheduleDecode
      (.ok (r.2.makeScheduleResult r.1 false), r.2)

end Scheduler

end NanoEngine
