import NanoEngine.Scheduler.CacheFlow

/-!
# NanoEngine.Scheduler.Lifecycle — preemption, postprocessing, abort and release

`rust/src/scheduler/lifecycle.rs`.
-/

namespace NanoEngine

namespace Scheduler

variable [Xxh3]

/-- `preempt_impl`: swap the sequence out to the host if possible, else drop its cache; back to `waiting`. -/
def preemptImpl (s : Scheduler) (dpIdx seqId : ℕ) : Scheduler :=
  match (s.updateSeq seqId Sequence.requeue).cachePrepareHostSwapOut seqId with
  | (true, s) =>
    let s := s.dropRunning dpIdx seqId
    { s with waiting := s.waiting ++ [seqId] }
  | (false, s) =>
    let s := (s.releaseSeq seqId).dropRunning dpIdx seqId
    { s with waiting := seqId :: s.waiting }

omit [Xxh3] in
/-- The victim of `preempt_one_for_allocation`: the sequence of the rank scheduled longest ago. -/
def preemptVictim (s : Scheduler) (dpIdx excludeSeqId : ℕ) : Option ℕ :=
  let step := fun id : ℕ => ((s.seqTable id).map (·.lastScheduledStep)).getD 0
  bestBy (fun a b => decide (step a < step b))
    ((s.running dpIdx).filter (fun id => decide (id ≠ excludeSeqId) && decide (id ∉ s.dummySeqIds)))

/-- `preempt_one_for_allocation`. -/
def preemptOneForAllocation (s : Scheduler) (dpIdx excludeSeqId : ℕ) : Bool × Scheduler :=
  match s.preemptVictim dpIdx excludeSeqId with
  | none => (false, s)
  | some victim => (true, s.preemptImpl dpIdx victim)

/-- `commit_hbm_blocks`. -/
def commitHbmBlocks (s : Scheduler) (seqId : ℕ) (committedTokens : ℤ) : Scheduler :=
  match s.seqTable seqId with
  | none => s
  | some seq =>
    let dpIdx := (max seq.activeDpIdx 0).toNat
    let groupId := (max seq.activeGroupId 0).toNat
    if s.dp ≤ dpIdx ∨ s.group ≤ groupId then s
    else
      let flat := s.flatIdx dpIdx groupId
      let pool := (s.cache.hbmPools flat).commitReady seqId seq.tokenIds committedTokens
      s.setCache (s.cache.setHbmPool flat pool)

/-! ## Postprocessing -/

omit [Xxh3] in
/-- `can_append`: neither the request's nor the model's limit is reached. -/
def canAppend (s : Scheduler) (seq : Sequence) : Bool :=
  decide (seq.numTokens - seq.numPromptTokens < seq.samplingParams.maxTokens)
    && decide (seq.numTokens < s.config.maxModelLen)

omit [Xxh3] in
/-- `terminal_after_append`, for the token just appended. -/
def terminalAfterAppend (s : Scheduler) (seq : Sequence) (token : ℤ) : Bool :=
  (!seq.samplingParams.ignoreEos && s.config.eosIds.contains token)
    || decide (seq.numTokens - seq.numPromptTokens ≥ seq.samplingParams.maxTokens)
    || decide (seq.numTokens ≥ s.config.maxModelLen)

omit [Xxh3] in
/-- The token loop of `postprocess_impl` on one sequence of the table: the sequence with the tokens applied, the
tokens applied and the flag `hit_terminal`. -/
def appendTokens (s : Scheduler) (seq : Sequence) : List ℤ → List ℚ → Sequence × List ℤ × Bool
  | [], _ => (seq, [], false)
  | token :: tokens, logprobs =>
    if s.canAppend seq then
      let seq := seq.pushToken token logprobs.head?
      if s.terminalAfterAppend seq token then (seq, [token], true)
      else
        let r := appendTokens s seq tokens logprobs.tail
        (r.1, token :: r.2.1, r.2.2)
    else (seq, [], true)

omit [Xxh3] in
/-- What the terminal test after the loop reads: `hit_eos || hit_limit`. -/
def hitEosOrLimit (s : Scheduler) (seq : Sequence) : Bool :=
  (!seq.samplingParams.ignoreEos && s.config.eosIds.contains seq.lastToken)
    || decide (seq.numTokens - seq.numPromptTokens ≥ seq.samplingParams.maxTokens)
    || decide (seq.numTokens ≥ s.config.maxModelLen)

/-- The end of the loop body of `postprocess_impl`, once the tokens are applied: finish, hand over to a decode
engine, or keep running.  `next_running` is the field `running` here: nothing in the loop reads the old one. -/
def postprocessPlace (s : Scheduler) (dpIdx seqId : ℕ) (seq : Sequence) (hitTerminal : Bool) : Scheduler :=
  if hitTerminal || s.hitEosOrLimit seq then
    (s.updateSeq seqId (fun seq => { seq with status := .finished })).releaseSeq seqId
  else if s.config.mode = .prefill then
    let s := s.updateSeq seqId (fun seq => { seq with status := .toBeMigrated })
    { s with toBeMigrated := Function.update s.toBeMigrated seqId (some dpIdx) }
  else
    -- an allocation failure is ignored here: the next decode step meets it again
    let s := (s.cacheEnsureBlocksForSeq seqId false).2
    (s.updateSeq seqId (fun seq => { seq with status := .running })).pushRunning dpIdx seqId

/-- The part of the loop body of `postprocess_impl` for a sequence whose target is reached: commit the prompt when it
has just been completed, apply the tokens and record them.  Returns the sequence and the flag `hit_terminal`. -/
def postprocessAppend (s : Scheduler) (seqId : ℕ) (seq : Sequence) (tokens : List ℤ) (logprobs : List ℚ) :
    (Sequence × Bool) × Scheduler :=
  let seq := if seq.status = .prefilling then { seq with status := .running } else seq
  let s := { s with seqTable := Function.update s.seqTable seqId (some seq) }
  let s := if seq.numTokens = promptTarget seq then s.commitHbmBlocks seqId (promptTarget seq) else s
  let r := s.appendTokens seq tokens logprobs
  ((r.1, r.2.2), { s with
    seqTable := Function.update s.seqTable seqId (some r.1)
    lastStepTokenIds := Function.update s.lastStepTokenIds seqId (some r.2.1) })

/-- The loop body of `postprocess_impl` for one sequence and its row of tokens (`none`: the row is missing). -/
def postprocessSeq (s : Scheduler) (dpIdx seqId : ℕ) (row : Option (List ℤ)) (logprobs : List ℚ) : Scheduler :=
  if seqId ∈ s.dummySeqIds then s
  else match row with
    | none => s.pushRunning dpIdx seqId
    | some tokens =>
      match s.seqTable seqId with
      | none => s
      | some seq =>
        if seq.numTokens < promptTarget seq then
          let s := (s.commitHbmBlocks seqId seq.numTokens).updateSeq seqId
            (fun seq => { seq with status := .prefilling })
          s.pushPrefilling dpIdx seqId
        else
          let r := s.postprocessAppend seqId seq tokens logprobs
          r.2.postprocessPlace dpIdx seqId r.1.1 r.1.2

/-- The inner loop of `postprocess_impl` over the sequences of one group, with their rows. -/
def postprocessGroup (dpIdx : ℕ) : List ℕ → List (List ℤ) → List (List ℚ) → Scheduler → Scheduler
  | [], _, _, s => s
  | seqId :: seqIds, rows, logprobs, s =>
    postprocessGroup dpIdx seqIds rows.tail logprobs.tail
      (s.postprocessSeq dpIdx seqId rows.head? (logprobs.head?.getD []))

/-- The outer loop of `postprocess_impl` from group `groupIdx` on; a group without rows is skipped. -/
def postprocessGroups : ℕ → List (List ℕ) → List (List (List ℤ)) →
    List (List (List ℚ)) → Scheduler → Scheduler
  | _, [], _, _, s => s
  | groupIdx, seqIds :: groups, rows, logprobs, s =>
    postprocessGroups (groupIdx + 1) groups rows.tail logprobs.tail
      (match rows.head? with
        | none => s
        | some groupRows => postprocessGroup (groupIdx / s.group) seqIds groupRows (logprobs.head?.getD []) s)

omit [Xxh3] in
/-- `scheduled_ids[dp_idx]`: the ids of the groups of one rank. -/
def scheduledIds (group : ℕ) (dpGroupSeqIds : List (List ℕ)) (dpIdx : ℕ) : List ℕ :=
  ((List.range dpGroupSeqIds.length).filter (fun g => decide (g / group = dpIdx))).flatMap
    (fun g => dpGroupSeqIds.getD g [])

/-- `postprocess_impl`; without log-probabilities `dpGroupTokenLogprobs` is empty. -/
def postprocessImpl (s : Scheduler) (dpGroupSeqIds : List (List ℕ)) (dpGroupTokenIds : List (List (List ℤ)))
    (dpGroupTokenLogprobs : List (List (List ℚ))) : Scheduler :=
  postprocessGroups 0 dpGroupSeqIds dpGroupTokenIds dpGroupTokenLogprobs
    { s with
      lastStepTokenIds := fun _ => none
      running := fun d => (s.running d).filter (fun id => decide (id ∉ scheduledIds s.group dpGroupSeqIds d)) }

/-! ## Abort and release -/

omit [Xxh3]

/-- `clear_finished_metric_state_impl`. -/
def clearFinishedMetricState (s : Scheduler) (seqId : ℕ) : Scheduler :=
  s.setCache { s.cache with
    prefixCachedTokensBySeq := Function.update s.cache.prefixCachedTokensBySeq seqId none }

/-- The test `found` of `abort_impl`. -/
def abortFound (s : Scheduler) (seqId : ℕ) : Bool :=
  (s.seqTable seqId).isSome
    && ((s.cache.seqAssignment seqId).isSome || (s.toBeMigrated seqId).isSome
      || (s.cache.sessionWait seqId).isSome || s.waiting.contains seqId || s.waitingMigration.contains seqId
      || (List.range s.dp).any (fun d => (s.running d).contains seqId)
      || (List.range s.dp).any (fun d => (s.prefilling d).contains seqId))

/-- `abort_impl`. -/
def abortImpl (s : Scheduler) (seqId : ℕ) : Bool × Scheduler :=
  if s.abortFound seqId then
    let s := s.releaseSeq seqId
    let keep := fun queue : List ℕ => queue.filter (fun id => decide (id ≠ seqId))
    let s := { s with
      waiting := keep s.waiting
      waitingMigration := keep s.waitingMigration
      running := fun d => keep (s.running d)
      prefilling := fun d => keep (s.prefilling d)
      toBeMigrated := Function.update s.toBeMigrated seqId none
      cache := { s.cache with sessionWait := Function.update s.cache.sessionWait seqId none } }
    (true, s.clearFinishedMetricState seqId)
  else (false, s)

/-- `abort_many_impl`: the ids found, in order. -/
def abortManyImpl (s : Scheduler) : List ℕ → List ℕ × Scheduler
  | [] => ([], s)
  | seqId :: seqIds =>
    let r := s.abortImpl seqId
    let rest := abortManyImpl r.2 seqIds
    (if r.1 then seqId :: rest.1 else rest.1, rest.2)

/-- One id of `free_to_be_migrated_ids_impl`. -/
def freeToBeMigrated (s : Scheduler) (seqId : ℕ) : Scheduler :=
  if (s.toBeMigrated seqId).isSome then
    { s with toBeMigrated := Function.update s.toBeMigrated seqId none }.releaseSeq seqId |>.updateSeq seqId
      (fun seq => { seq with status := .finished })
  else s.releaseSeq seqId

/-- `free_to_be_migrated_ids_impl`. -/
def freeToBeMigratedIdsImpl (s : Scheduler) (seqIds : List ℕ) : Scheduler := seqIds.foldl freeToBeMigrated s

end Scheduler

end NanoEngine
