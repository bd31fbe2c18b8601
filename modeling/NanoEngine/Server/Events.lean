import NanoEngine.Scheduler.Lifecycle

/-!
# NanoEngine.Server.Events — what a step reports and what the backend sends

`collect_sequence_events_impl` of `rust/src/scheduler/mod.rs`, the end of `record_step_metrics_and_report_api`, and the
event loop of `run_engine_backend` in `dlengine/server/engine_server.py` (`_event_token_ids`, the batch of step
outputs).
-/

namespace NanoEngine

/-- The event dictionary of one sequence. -/
structure SequenceEvent where
  seqId : ℕ
  lastToken : ℤ
  tokenIds : List ℤ
  numTokens : ℤ
  isFinished : Bool
  isToBeMigrated : Bool
  isNewRunning : Bool
  sourceEngineId : String
  visionSlots : List VisionSlot
  migrationPayload : Option WireRequestMigrate

/-- One entry of `stepout_batch`. -/
structure StepOut where
  seqId : ℕ
  tokenIds : List ℤ
  status : SequenceStatus

/-- `_event_token_ids`: the tokens of the step, else the last token unless the sequence is newly running or empty. -/
def eventTokenIds (event : SequenceEvent) : List ℤ :=
  if event.tokenIds ≠ [] then event.tokenIds
  else if event.isNewRunning then []
  else if event.numTokens > 0 then [event.lastToken]
  else []

/-- What the backend loop appends to `stepout_batch` for an event. -/
def stepOutOf (event : SequenceEvent) : List StepOut :=
  if event.isFinished then [⟨event.seqId, eventTokenIds event, .finished⟩]
  else if event.isToBeMigrated then []
  else if eventTokenIds event ≠ [] then [⟨event.seqId, eventTokenIds event, .running⟩]
  else []

namespace Scheduler

/-- The event of a sequence of the step. -/
def sequenceEvent (s : Scheduler) (seqId : ℕ) (seq : Sequence) (trackRunning : Bool) (previousRunning : Finset ℕ) :
    SequenceEvent where
  seqId := seqId
  lastToken := seq.lastToken
  tokenIds := (s.lastStepTokenIds seqId).getD []
  numTokens := seq.numTokens
  isFinished := decide (seq.status = .finished)
  isToBeMigrated := decide (seq.status = .toBeMigrated)
  isNewRunning := trackRunning && decide (seqId ∉ previousRunning)
  sourceEngineId := seq.migrateEngineId
  visionSlots := seq.visionSlots
  migrationPayload := if seq.status = .toBeMigrated then some (sequenceToMigrationRequest seq) else none

/-- The loop of `collect_sequence_events_impl`; a reported vision slot is dropped from its sequence. -/
def collectSequenceEvents (trackRunning : Bool) (previousRunning : Finset ℕ) :
    List ℕ → Scheduler → List SequenceEvent × Scheduler
  | [], s => ([], s)
  | seqId :: ids, s =>
    if seqId ∈ s.dummySeqIds then collectSequenceEvents trackRunning previousRunning ids s
    else match s.seqTable seqId with
      | none => collectSequenceEvents trackRunning previousRunning ids s
      | some seq =>
        let event := s.sequenceEvent seqId seq trackRunning previousRunning
        let rest := collectSequenceEvents trackRunning previousRunning ids
          (s.updateSeq seqId (fun seq => { seq with visionSlots := [] }))
        (event :: rest.1, rest.2)

/-- The end of a step: collect the events, then forget the metric state of what is completed. -/
def recordCompleteStep (s : Scheduler) (dpSeqIds : List (List ℕ)) (trackRunning : Bool)
    (previousRunning : Finset ℕ) :
    List SequenceEvent × Scheduler :=
  let r := collectSequenceEvents trackRunning previousRunning dpSeqIds.flatten s
  let completed := (r.1.filter (fun event => event.isFinished || event.isToBeMigrated)).map (·.seqId)
  (r.1, completed.foldl clearFinishedMetricState r.2)

end Scheduler

end NanoEngine
