import NanoEngine.Engine.Ops
import NanoEngine.Server.Events

/-!
# NanoEngine.Engine.Step — runs of the engine, step by step

`LLMEngine.step` and `_run_scheduled_step` of `dlengine/engine/llm_engine.py` inside the loop of `run_engine_backend`:
between steps requests are added, aborted and freed; a step schedules, swaps, runs, postprocesses and reports.

* `EngineState.step`: one step, given the rows that the runner returns.  A `schedule` that raises ends the step: the
  loop logs it and goes on with the scheduler that it left behind.
* A decode engine that schedules a prefill only migrates the KV cache: nothing is postprocessed.
-/

namespace NanoEngine

open Transition

/-- The backend process: the scheduler, the set `_previous_running_seqs` and the ids added and not aborted since. -/
structure EngineState where
  sched : Scheduler
  previousRunning : Finset ℕ
  live : Finset ℕ

inductive EngineOp
  | addRequest (request : WireRequestIn)
  | addMigrated (request : WireRequestMigrate)
  | step (rows : List (List (List ℤ))) (logprobs : List (List (List ℚ)))
  | abort (seqId : ℕ)
  | freeMigrated (seqId : ℕ)
  | setPrefixCaching (enabled : Bool)

namespace Scheduler

/-- `_run_host_swap_outs`, then `_run_host_swap_ins`: the scheduler when the batch is serialized. -/
def completeSwaps (s : Scheduler) (r : ScheduleResult) : Scheduler :=
  (s.cacheCompleteHostSwapOuts r.swapOutTasks).cacheCompleteHostSwapIns r.swapInTasks

/-- The step of a decode engine that only receives the KV cache of migrated sequences. -/
def isKvOnly (s : Scheduler) (r : ScheduleResult) : Bool := r.isPrefill && decide (s.config.mode = .decode)

variable [Xxh3]

/-- The rest of `_run_scheduled_step`: the rows of the runner are postprocessed. -/
def runScheduled (s : Scheduler) (r : ScheduleResult) (rows : List (List (List ℤ)))
    (logprobs : List (List (List ℚ))) :
    Scheduler :=
  if s.isKvOnly r then s else s.postprocessImpl r.filteredDpGroupSeqIds rows logprobs

end Scheduler

namespace EngineState

def init (config : SchedulerConfig) : EngineState := ⟨Scheduler.new config, ∅, ∅⟩

/-- Live and not terminal: added, not aborted and not finished. -/
def isLive (x : EngineState) (seqId : ℕ) : Bool := decide (seqId ∈ x.live) && x.sched.unfinished seqId

def add (x : EngineState) (seq : Sequence) : Option EngineState :=
  if x.isLive seq.seqId || x.sched.isReservedId seq.seqId then none
  else some { x with sched := x.sched.addSequence seq, live := insert seq.seqId x.live }

def trackRunning (x : EngineState) : Bool := decide (x.sched.config.mode = .decode)

variable [Xxh3]

/-- The events of a step and the scheduler after it. -/
def report (x : EngineState) (rows : List (List (List ℤ))) (logprobs : List (List (List ℚ))) :
    List SequenceEvent × Scheduler :=
  match x.sched.schedule with
  | (.error _, s) => ([], s)
  | (.ok r, s) =>
    ((s.completeSwaps r).runScheduled r rows logprobs).recordCompleteStep r.dpSeqIds x.trackRunning x.previousRunning

/-- One step of the engine. -/
def step (x : EngineState) (rows : List (List (List ℤ))) (logprobs : List (List (List ℚ))) : EngineState :=
  let r := x.report rows logprobs
  { x with
    sched := r.2
    previousRunning := match x.sched.schedule with
      | (.error _, _) => x.previousRunning
      | (.ok _, _) => if x.trackRunning then (r.1.map (·.seqId)).toFinset else ∅ }

def next (x : EngineState) : EngineOp → Option EngineState
  | .addRequest request => x.add (requestToSequence request)
  | .addMigrated request => if request.handedOver then x.add (migrateRequestToSequence request) else none
  | .step rows logprobs => if x.sched.hasRunnableWork then some (x.step rows logprobs) else none
  | .abort seqId =>
    let r := x.sched.abortImpl seqId
    some { x with sched := r.2, live := if r.1 then x.live.erase seqId else x.live }
  | .freeMigrated seqId =>
    if (x.sched.toBeMigrated seqId).isSome then some { x with sched := x.sched.freeToBeMigratedIdsImpl [seqId] }
    else none
  | .setPrefixCaching enabled => some { x with sched := x.sched.setPrefixCachingEnabled enabled }

/-- What happens between two states of the engine. -/
inductive Step (x : EngineState) : EngineOp → EngineState → Prop
  | added {x' : EngineState} (request : WireRequestIn) (h : x.add (requestToSequence request) = some x') :
    Step x (.addRequest request) x'
  | handedOver {x' : EngineState} (request : WireRequestMigrate) (hover : request.handedOver = true)
    (h : x.add (migrateRequestToSequence request) = some x') : Step x (.addMigrated request) x'
  | stepped (rows : List (List (List ℤ))) (logprobs : List (List (List ℚ))) (h : x.sched.hasRunnableWork = true) :
    Step x (.step rows logprobs) (x.step rows logprobs)
  | aborted (seqId : ℕ) : Step x (.abort seqId)
      { x with
        sched := (x.sched.abortImpl seqId).2
        live := if (x.sched.abortImpl seqId).1 then x.live.erase seqId else x.live }
  | freed {seqId : ℕ} (hmig : (x.sched.toBeMigrated seqId).isSome = true) :
    Step x (.freeMigrated seqId) { x with sched := x.sched.freeToBeMigratedIdsImpl [seqId] }
  | toggled (enabled : Bool) :
    Step x (.setPrefixCaching enabled) { x with sched := x.sched.setPrefixCachingEnabled enabled }

theorem step_of_next {x x' : EngineState} {op : EngineOp} (h : x.next op = some x') : Step x op x' := by
  cases op with
  | addRequest request => exact .added request h
  | addMigrated request =>
    simp only [next] at h
    split at h
    case isTrue hover => exact .handedOver request hover h
    case isFalse => cases h
  | step rows logprobs =>
    simp only [next] at h
    split at h
    case isTrue hwork =>
      cases h
      exact .stepped rows logprobs hwork
    case isFalse => cases h
  | abort seqId =>
    cases h
    exact .aborted seqId
  | freeMigrated seqId =>
    simp only [next] at h
    split at h
    case isTrue hmig =>
      cases h
      exact .freed hmig
    case isFalse => cases h
  | setPrefixCaching enabled =>
    cases h
    exact .toggled enabled

end EngineState

/-- The engine, step by step. -/
def engineSystem [Xxh3] (config : SchedulerConfig) : System EngineState EngineOp where
  initial x := x = EngineState.init config
  next := EngineState.next

end NanoEngine
