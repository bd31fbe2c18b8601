import NanoEngine.Engine.Step
import NanoEngine.Proto.Wire

/-!
# NanoEngine.Prefill.Cover — the slices of one prefill

* `PrefillRun`: what the runner received for a sequence since its last admission, and the sequence as it was then.
* `PrefillRun.Covered`: the slices are consecutive and end where the sequence ends.
* `Sequence.Chunk`: a sequence whose next slice is not cut short by the packer.
* `Prefills`: the runs of all sequences, as a ghost of the engine.
-/

namespace NanoEngine

open Scheduler Transition

/-- The rows of a sequence since its admission at `start`; the other fields are the sequence's at the last row. -/
structure PrefillRun where
  start : ℤ
  rows : List WireRow
  tokenIds : List ℤ
  target : ℤ
  numTokens : ℤ

namespace PrefillRun

def inputIds (run : PrefillRun) : List ℤ := run.rows.flatMap (·.inputIds)

def positions (run : PrefillRun) : List ℕ := run.rows.flatMap (·.positions)

/-- The slices so far are the tokens from `start` to `numTokens`, and only the one that reaches the target samples. -/
structure Covered (run : PrefillRun) : Prop where
  nonneg : 0 ≤ run.start
  started : run.start ≤ run.numTokens
  within : run.numTokens ≤ run.target
  inputIds : run.inputIds = (run.tokenIds.take run.numTokens.toNat).drop run.start.toNat
  positions : run.positions = List.range' run.start.toNat (run.numTokens.toNat - run.start.toNat)
  early : ∀ row ∈ run.rows.dropLast, row.sample = false
  unfinished : run.numTokens < run.target → ∀ row ∈ run.rows, row.sample = false

end PrefillRun

/-! ## One slice -/

/-- The chunk from `prefill_start_offset` to `num_tokens` is a part of the prompt. -/
structure Sequence.Chunk (a : Sequence) : Prop where
  nonneg : 0 ≤ a.prefillStartOffset
  started : a.prefillStartOffset ≤ a.numTokens
  within : a.numTokens ≤ promptTarget a
  target : promptTarget a ≤ a.numPromptTokens
  prompt : a.numPromptTokens ≤ a.tokenIds.length

namespace Sequence.Chunk

variable {a : Sequence}

theorem target_eq (h : a.Chunk) : promptTarget a = a.numPromptTokens := by
  have := h.target
  unfold promptTarget at *
  omega

/-- The packer sends the chunk, and samples exactly when it reaches the target. -/
theorem packed_eq (h : a.Chunk) : a.packed true =
    ⟨a.seqId, (a.tokenIds.take a.numTokens.toNat).drop a.prefillStartOffset.toNat,
      List.range' a.prefillStartOffset.toNat (a.numTokens.toNat - a.prefillStartOffset.toNat),
      decide (promptTarget a ≤ a.numTokens)⟩ := by
  have heq := h.target_eq
  have h₁ := h.nonneg
  have h₂ := h.started
  have h₃ := h.within
  have h₄ := h.prompt
  have hstart : a.sliceStart = a.prefillStartOffset.toNat := by
    unfold sliceStart
    omega
  have hend : a.sliceEnd = a.numTokens.toNat := by
    unfold sliceEnd promptLen
    rw [hstart]
    omega
  have hsample : a.promptLen ≤ a.sliceEnd ↔ promptTarget a ≤ a.numTokens := by
    rw [hend]
    unfold promptLen
    omega
  unfold packed
  rw [if_pos rfl, decide_eq_decide.2 hsample, hstart, hend]

end Sequence.Chunk

/-- An admission starts a run, a continuation extends it. -/
def PrefillRun.follow (run : Option PrefillRun) (continued : Bool) (rows : List WireRow) (a : Sequence) :
    Option PrefillRun :=
  if continued then
    run.map fun run => { run with
      rows := run.rows ++ rows
      tokenIds := a.tokenIds
      target := promptTarget a
      numTokens := a.numTokens }
  else some ⟨a.prefillStartOffset, rows, a.tokenIds, promptTarget a, a.numTokens⟩

/-- `a` is in the middle of `run`: it has come as far as the rows reach. -/
structure PrefillRun.At (run : PrefillRun) (tokens : List ℤ) (target numTokens : ℤ) : Prop where
  tokenIds : run.tokenIds = tokens
  target : run.target = target
  numTokens : run.numTokens = numTokens

namespace PrefillRun

variable {run : PrefillRun} {a : Sequence}

theorem covered_admitted (h : a.Chunk) :
    Covered ⟨a.prefillStartOffset, [a.packed true], a.tokenIds, promptTarget a, a.numTokens⟩ where
  nonneg := h.nonneg
  started := h.started
  within := h.within
  inputIds := by simp [PrefillRun.inputIds, h.packed_eq]
  positions := by simp [PrefillRun.positions, h.packed_eq]
  early := by simp
  unfinished := by
    intro hlt row hrow
    rw [List.mem_singleton.1 hrow, h.packed_eq]
    simpa using hlt

theorem covered_continued (h : a.Chunk) (hrun : run.Covered)
    (hat : run.At a.tokenIds (promptTarget a) a.prefillStartOffset) (hopen : a.prefillStartOffset < promptTarget a) :
    Covered { run with
      rows := run.rows ++ [a.packed true]
      tokenIds := a.tokenIds
      target := promptTarget a
      numTokens := a.numTokens } := by
  have hstart := hrun.started
  rw [hat.numTokens] at hstart
  have hnonneg := hrun.nonneg
  have hstarted := h.started
  have hsamples := hrun.unfinished (by rw [hat.numTokens, hat.target]; exact hopen)
  refine ⟨hrun.nonneg, hstart.trans hstarted, h.within, ?_, ?_, ?_, ?_⟩
  · have hold := hrun.inputIds
    rw [hat.tokenIds, hat.numTokens] at hold
    unfold PrefillRun.inputIds at hold ⊢
    rw [List.flatMap_append, hold, h.packed_eq]
    simp only [List.flatMap_singleton]
    -- two consecutive slices
    rw [List.drop_take, List.drop_take, List.drop_take,
      show a.numTokens.toNat - run.start.toNat = (a.prefillStartOffset.toNat - run.start.toNat)
        + (a.numTokens.toNat - a.prefillStartOffset.toNat) by omega, List.take_add, List.drop_drop]
    congr 3
    omega
  · have hold := hrun.positions
    rw [hat.numTokens] at hold
    unfold PrefillRun.positions at hold ⊢
    rw [List.flatMap_append, hold, h.packed_eq]
    simp only [List.flatMap_singleton]
    rw [show a.numTokens.toNat - run.start.toNat = (a.prefillStartOffset.toNat - run.start.toNat)
      + (a.numTokens.toNat - a.prefillStartOffset.toNat) by omega, ← List.range'_append]
    congr 2
    omega
  · intro row hrow
    rw [List.dropLast_concat] at hrow
    exact hsamples row hrow
  · intro hlt row hrow
    rcases List.mem_append.1 hrow with hrow | hrow
    · exact hsamples row hrow
    · rw [List.mem_singleton.1 hrow, h.packed_eq]
      simpa using hlt

end PrefillRun

/-! ## The ghost -/

/-- For every id: what the runner received for it since its last admission. -/
abbrev Prefills := ℕ → Option PrefillRun

namespace Scheduler

/-- The rows of a sequence in the first batch that has some; the groups of a rank all receive the same batch. -/
def rowsFor (batches : List WireBatch) (seqId : ℕ) : List WireRow :=
  ((batches.map fun batch => batch.rows.filter (fun row => decide (row.seqId = seqId))).find?
    (fun rows => !rows.isEmpty)).getD []

/-- The sequence is in the middle of a chunked prefill. -/
def isPrefilling (s : Scheduler) (seqId : ℕ) : Bool := (List.range s.dp).any fun d => (s.prefilling d).contains seqId

end Scheduler

namespace Prefills

def init : Prefills := fun _ => none

/-- The batches of a prefill are handed to the runner: `before` is the scheduler at the start of the step, `s` the one
that is serialized.  A sequence without a row in the batches keeps its run, also when the step has scheduled it: the
runner has received nothing for it, and the next slice has to begin where the last one ended. -/
def serve (g : Prefills) (before s : Scheduler) (r : ScheduleResult) : Prefills := fun seqId =>
  match s.seqTable seqId, rowsFor (s.serializeRunBatches r) seqId with
  | some a, row :: rows => PrefillRun.follow (g seqId) (before.isPrefilling seqId) (row :: rows) a
  | _, _ => g seqId

variable [Xxh3]

def follow (x : EngineState) (op : EngineOp) (_ : EngineState) (g : Prefills) : Prefills :=
  match op with
  | .step _ _ =>
    match x.sched.schedule with
    | (.error _, _) => g
    | (.ok r, s) => if r.isPrefill && !s.isKvOnly r then g.serve x.sched (s.completeSwaps r) r else g
  | _ => g

end Prefills

end NanoEngine
