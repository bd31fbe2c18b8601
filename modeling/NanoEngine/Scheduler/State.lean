import Mathlib.Data.List.Sort
import NanoEngine.Cache.State

/-!
# NanoEngine.Scheduler.State — the scheduler's state, its groups and its router

`rust/src/scheduler/mod.rs` (fields, `new`, `add_sequence`), `types.rs`, `group_manager.rs`, `router.rs` and
`api_control.rs`.  Metrics and time stamps are left out: no decision reads them.

* `running`, `prefilling` and the per-rank batch counters are functions of the rank `dp_idx`.
* `sort_by_key` is stable, as `List.insertionSort` is; `min_by_key` returns the first minimum and `max_by_key` the last
  maximum, both as `bestBy`.  Keys that are tuples are compared field by field.
-/

namespace NanoEngine

/-- `HOST_SWAP_IN_COOLDOWN_STEPS`. -/
def hostSwapInCooldownSteps : ℕ := 2

structure Scheduler where
  config : SchedulerConfig
  seqTable : ℕ → Option Sequence
  waiting : List ℕ
  waitingMigration : List ℕ
  running : ℕ → List ℕ
  prefilling : ℕ → List ℕ
  toBeMigrated : ℕ → Option ℕ
  dummySeqIds : Finset ℕ
  cache : CacheState
  currentStep : ℕ
  rrCursor : ℕ
  /-- Tokens committed for each sequence by the most recent `postprocess`. -/
  lastStepTokenIds : ℕ → Option (List ℤ)

/-- `ScheduleResult`, without metrics and time stamps. -/
structure ScheduleResult where
  dpSeqIds : List (List ℕ)
  dpGroupSeqIds : List (List ℕ)
  filteredDpGroupSeqIds : List (List ℕ)
  isPrefill : Bool
  groupSendCounts : ℕ → ℕ → ℕ
  groupRecvCounts : ℕ → ℕ → ℕ
  groupQMatrix : ℕ → ℕ → ℕ → ℕ
  waitingHeadBlocks : ℕ
  waitingTotalBlocks : ℕ
  swapOutTasks : List (List SwapTask)
  swapInTasks : List (List SwapTask)

namespace Scheduler

def new (config : SchedulerConfig) : Scheduler where
  config := config
  seqTable := fun _ => none
  waiting := []
  waitingMigration := []
  running := fun _ => []
  prefilling := fun _ => []
  toBeMigrated := fun _ => none
  dummySeqIds := ∅
  cache := CacheState.new config
  currentStep := 0
  rrCursor := 0
  lastStepTokenIds := fun _ => none

def dp (s : Scheduler) : ℕ := s.config.dp

def group (s : Scheduler) : ℕ := s.config.group

def flatIdx (s : Scheduler) (dpIdx groupId : ℕ) : ℕ := dpIdx * s.group + groupId

def setCache (s : Scheduler) (c : CacheState) : Scheduler := { s with cache := c }

/-- `self.running[dp_idx].push(seq_id)`. -/
def pushRunning (s : Scheduler) (dpIdx seqId : ℕ) : Scheduler :=
  { s with running := Function.update s.running dpIdx (s.running dpIdx ++ [seqId]) }

/-- `self.running[dp_idx].retain(|id| *id != seq_id)`. -/
def dropRunning (s : Scheduler) (dpIdx seqId : ℕ) : Scheduler :=
  { s with running := Function.update s.running dpIdx ((s.running dpIdx).filter (fun id => decide (id ≠ seqId))) }

/-- `self.prefilling[dp_idx].push(seq_id)`. -/
def pushPrefilling (s : Scheduler) (dpIdx seqId : ℕ) : Scheduler :=
  { s with prefilling := Function.update s.prefilling dpIdx (s.prefilling dpIdx ++ [seqId]) }

/-- `if let Some(seq) = self.seq_table.get_mut(&seq_id) { … }`. -/
def updateSeq (s : Scheduler) (seqId : ℕ) (f : Sequence → Sequence) : Scheduler :=
  { s with seqTable := Function.update s.seqTable seqId ((s.seqTable seqId).map f) }

/-- `(active_group_id.max(0) as usize).min(group - 1)`. -/
def groupOf (s : Scheduler) (seq : Sequence) : ℕ := min (max seq.activeGroupId 0).toNat (s.group - 1)

/-- The group of a sequence id, `0` for an unknown one. -/
def groupOfId (s : Scheduler) (seqId : ℕ) : ℕ := ((s.seqTable seqId).map s.groupOf).getD 0

/-- `num_tokens` of a sequence id, `0` for an unknown one. -/
def numTokensOf (s : Scheduler) (seqId : ℕ) : ℤ := ((s.seqTable seqId).map (·.numTokens)).getD 0

def addSequence (s : Scheduler) (seq : Sequence) : Scheduler :=
  let s := { s with seqTable := Function.update s.seqTable seq.seqId (some seq) }
  if s.config.mode = .decode then { s with waitingMigration := s.waitingMigration ++ [seq.seqId] }
  else { s with waiting := s.waiting ++ [seq.seqId] }

/-- `prompt_target`. -/
def promptTarget (seq : Sequence) : ℤ := max seq.numPromptTokens seq.numCheckpointedTokens

/-! ## Groups -/

def blocksNeededForTokens (s : Scheduler) (tokens : ℤ) : ℕ :=
  ((max tokens 1 + s.config.blockSize - 1) / s.config.blockSize).toNat

def dispatchForMaster (s : Scheduler) (master : ℕ) (tokens : ℤ) : List ℤ :=
  (List.replicate s.group 0).set master (max tokens 0)

def groupLoads (s : Scheduler) (dpIdx : ℕ) : ℕ → ℤ := fun gid =>
  ((s.running dpIdx).map (fun seqId =>
    match s.seqTable seqId with
    | none => 0
    | some seq => if s.groupOf seq = gid then seq.numTokens else 0)).foldl (· + ·) 0

/-- `min_by_key` and `max_by_key` as one loop: an element that is better than the best one so far replaces it. -/
def bestBy (better : ℕ → ℕ → Bool) : List ℕ → Option ℕ
  | [] => none
  | a :: l => some (l.foldl (fun best b => if better b best then b else best) a)

theorem bestBy_mem {better : ℕ → ℕ → Bool} {l : List ℕ} {a : ℕ}
    (h : bestBy better l = some a) : a ∈ l := by
  cases l with
  | nil => cases h
  | cons b l =>
    cases h
    refine List.foldlRecOn l _ (motive := fun best => best ∈ b :: l) List.mem_cons_self fun best hbest c hc => ?_
    split
    · exact List.mem_cons_of_mem _ hc
    · exact hbest

/-- The `while remaining > 0` loop of `compute_dispatch`, one block at a time. -/
def dispatchLoop (s : Scheduler) (dpIdx master : ℕ) : ℕ → ℤ → (ℕ → ℤ) → List ℤ → List ℤ
  | 0, _, _, out => out
  | fuel + 1, remaining, loads, out =>
    if remaining > 0 then
      let free := fun gid : ℕ => (s.cache.hbmPools (s.flatIdx dpIdx gid)).numFreeBlocks
      let gid := (bestBy (fun a b => decide (loads a < loads b) || decide (loads a = loads b ∧ free b < free a))
        (List.range s.group)).getD master
      let take := min remaining s.config.blockSize
      dispatchLoop s dpIdx master fuel (remaining - take) (Function.update loads gid (loads gid + take))
        (out.set gid (out.getD gid 0 + take))
    else out

/-- `compute_dispatch`: how many tokens of the sequence each group holds. -/
def computeDispatch (s : Scheduler) (dpIdx master : ℕ) (tokens : ℤ) : List ℤ :=
  if s.group ≤ 1 ∨ tokens ≤ 256 then s.dispatchForMaster master tokens
  else
    let out := s.dispatchLoop dpIdx master tokens.toNat tokens (s.groupLoads dpIdx) (List.replicate s.group 0)
    if out.getD master 0 = 0 then
      match bestBy (fun a b => decide (out.getD b 0 ≤ out.getD a 0)) (List.range s.group) with
      | none => out
      | some gid => (out.set master (out.getD gid 0)).set gid 0
    else out

/-- `choose_master_group`: the least loaded group that may still take a sequence. -/
def chooseMasterGroup (s : Scheduler) (dpIdx : ℕ) (batchSeqs batchTokens : ℕ → ℤ) : Option ℕ :=
  let loads := fun gid : ℕ => s.groupLoads dpIdx gid + batchTokens gid
  let free := fun gid : ℕ => (s.cache.hbmPools (s.flatIdx dpIdx gid)).numFreeBlocks
  ((List.range s.group).insertionSort (fun a b => batchSeqs a < batchSeqs b ∨ batchSeqs a = batchSeqs b ∧
    (loads a < loads b ∨ loads a = loads b ∧ free b ≤ free a))).find?
    (fun gid => decide (batchSeqs gid < max s.config.maxNumSeqs 1))

/-- `make_dummy_seq_id`: groups without work get a one-token dummy sequence. -/
def makeDummySeqId (s : Scheduler) (dpIdx groupId : ℕ) : ℕ × Scheduler :=
  let seqId := u64Max - (dpIdx * s.group + groupId)
  let seq := { Sequence.new seqId [0] {} with
    status := .running
    activeGroupId := groupId
    migrateGroupId := groupId
    activeDispatchedTokens := s.dispatchForMaster groupId 1 }
  (seqId, { s with
    dummySeqIds := insert seqId s.dummySeqIds
    seqTable := Function.update s.seqTable seqId (some seq) })

/-! ## Router -/

/-- `choose_assignment`: a rank for a sequence that has none. -/
def chooseAssignment (s : Scheduler) : (ℕ × ℕ) × Scheduler :=
  if s.config.routingStrategy = .leastCache then
    let free := fun flat : ℕ => (s.cache.hbmPools flat).numFreeBlocks
    let best := (bestBy (fun a b => decide (free b < free a)) (List.range (s.dp * s.group))).getD 0
    ((best / s.group, best % s.group), s)
  else
    let total := max (s.dp * s.group) 1
    let idx := s.rrCursor % total
    ((idx / s.group, idx % s.group), { s with rrCursor := (s.rrCursor + 1) % total })

def dpRunningTokens (s : Scheduler) (dpIdx : ℕ) : ℤ :=
  ((s.running dpIdx ++ s.prefilling dpIdx).map s.numTokensOf).foldl (· + ·) 0

def dpRunningSeqs (s : Scheduler) (dpIdx : ℕ) : ℕ := (s.running dpIdx).length + (s.prefilling dpIdx).length

/-- `route_candidates`: the ranks to try for a sequence, in order. -/
def routeCandidates (s : Scheduler) (seqId : ℕ) : List ℕ × Scheduler :=
  let dp := s.dp
  let affinity := ((s.seqTable seqId).map (·.affinityKey)).getD 0
  let order := List.range dp
  match s.config.routingStrategy with
  | .roundRobin =>
    let start := s.rrCursor % dp
    (order.insertionSort (fun a b => (a + dp - start) % dp ≤ (b + dp - start) % dp),
      { s with rrCursor := (s.rrCursor + 1) % dp })
  | .leastBatch => (order.insertionSort (fun a b => s.dpRunningSeqs a ≤ s.dpRunningSeqs b), s)
  | .leastCache => (order.insertionSort (fun a b => s.dpRunningTokens a ≤ s.dpRunningTokens b), s)
  | .affinity =>
    let order := order.insertionSort (fun a b => s.dpRunningTokens a ≤ s.dpRunningTokens b)
    if affinity = 0 then (order, s)
    else match s.cache.sessionAffinity affinity with
      | none => (order, s)
      | some preferred =>
        let waited := (s.cache.sessionWait seqId).getD 0
        let setWait := fun n : ℕ =>
          s.setCache { s.cache with sessionWait := Function.update s.cache.sessionWait seqId (some n) }
        if waited < 3 then ([min preferred (dp - 1)], setWait (waited + 1))
        else (min preferred (dp - 1) :: order.filter (fun rank => decide (rank ≠ preferred)), setWait waited)
  | .other => (order, s)

/-! ## Control queries -/

/-- `has_runnable_work`. -/
def hasRunnableWork (s : Scheduler) : Bool :=
  !s.waiting.isEmpty || !s.waitingMigration.isEmpty
    || (List.range s.dp).any (fun d => !(s.running d).isEmpty)
    || (List.range s.dp).any (fun d => !(s.prefilling d).isEmpty)

def setPrefixCachingEnabled (s : Scheduler) (enabled : Bool) : Scheduler :=
  s.setCache (s.cache.setPrefixCachingEnabled enabled)

end Scheduler

end NanoEngine
