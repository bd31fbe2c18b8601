import NanoEngine.Scheduler.Schedule

/-!
# NanoEngine.Proto.Wire — the batch that the runner receives

`sequence_refs_runner_in_bytes` of `rust/src/proto/wire.rs` and `serialize_run_batches_for_result` of
`scheduler/api.rs`.  The byte encoding of the batch and its copies for the ranks of a tensor-parallel group are left
out.

* `toFloat32`: the rounding of `as f32`.
* `WireBatch.push`: one iteration of the packing loop.
* `WireBatch.rows`: the batch cut into the rows of its sequences, as the runner reads it.
* `rows_sequenceRefsRunnerIn`: the rows are the packed sequences, in order.
-/

namespace NanoEngine

/-- The integer nearest to `a / b`, the even one of two. -/
def roundDiv (a b : ℕ) : ℕ :=
  if 2 * (a % b) < b ∨ 2 * (a % b) = b ∧ a / b % 2 = 0 then a / b else a / b + 1

/-- `as f32`: 24 bits, fewer below `2 ^ -126`.  From about `2 ^ 128` on the conversion gives infinity, which is left
out. -/
def toFloat32 (x : ℚ) : ℚ :=
  let n := x.num.natAbs
  let k : ℤ := (n.log2 : ℤ) - x.den.log2
  -- the exponents of the first bit and of the last one
  let first := if x.den <<< k.toNat ≤ n <<< (-k).toNat then k else k - 1
  let last := if first - 23 < -149 then -149 else first - 23
  let m := roundDiv (n <<< (-last).toNat) (x.den <<< last.toNat)
  mkRat (x.num.sign * (m <<< last.toNat : ℕ)) (1 <<< (-last).toNat)

example : toFloat32 (1 / 2) = 1 / 2 ∧ toFloat32 (1 / 100000) = 2748779 / 274877906944 := by decide +kernel

/-- `WireBatch`: the slices of all sequences one after another, the other fields one entry a sequence. -/
structure WireBatch where
  isPrefill : Bool
  inputIds : List ℤ
  positions : List ℕ
  seqLens : List ℕ
  blockTables : List (List ℕ)
  temperatures : List ℚ
  stateSlots : List ℤ
  compressedBlockTables : ℤ → Option (List (List ℕ))
  hisparseSlots : List ℤ
  seqIds : List ℕ
  sampleMask : List Bool
  anyReturnCompletionLogprobs : Bool

/-- What the batch holds for one sequence. -/
structure WireRow where
  seqId : ℕ
  inputIds : List ℤ
  positions : List ℕ
  sample : Bool
  deriving DecidableEq

namespace Sequence

/-- `prompt_len`. -/
def promptLen (item : Sequence) : ℕ := min (max item.numPromptTokens 0).toNat item.tokenIds.length

/-- `start` of the slice of a prefill. -/
def sliceStart (item : Sequence) : ℕ := min (max item.prefillStartOffset 0).toNat item.tokenIds.length

/-- `end` of the slice of a prefill: capped by the prompt, also for a sequence that is resumed with generated tokens. -/
def sliceEnd (item : Sequence) : ℕ :=
  max (min (min (max item.numTokens 0).toNat item.promptLen) item.tokenIds.length) item.sliceStart

/-- The slice, its positions and `should_sample` of one sequence. -/
def packed (item : Sequence) (isPrefill : Bool) : WireRow :=
  if isPrefill then
    { seqId := item.seqId
      inputIds := (item.tokenIds.take item.sliceEnd).drop item.sliceStart
      positions := List.range' item.sliceStart (item.sliceEnd - item.sliceStart)
      sample := decide (item.promptLen ≤ item.sliceEnd) }
  else
    { seqId := item.seqId
      inputIds := [item.lastToken]
      positions := [item.tokenIds.length - 1]
      sample := true }

theorem sliceEnd_le_length (item : Sequence) : item.sliceEnd ≤ item.tokenIds.length := by
  unfold sliceEnd sliceStart
  omega

/-- Tokens and positions of a slice match. -/
theorem length_packed (item : Sequence) (isPrefill : Bool) :
    (item.packed isPrefill).positions.length = (item.packed isPrefill).inputIds.length := by
  have := item.sliceEnd_le_length
  cases isPrefill with
  | false => rfl
  | true =>
    simp only [packed, if_true, List.length_range', List.length_drop, List.length_take]
    omega

theorem packed_seqId (item : Sequence) (isPrefill : Bool) : (item.packed isPrefill).seqId = item.seqId := by
  unfold packed
  split <;> rfl

end Sequence

namespace WireBatch

/-- `WireBatch::empty`. -/
def empty (isPrefill : Bool) : WireBatch where
  isPrefill := isPrefill
  inputIds := []
  positions := []
  seqLens := []
  blockTables := []
  temperatures := []
  stateSlots := []
  compressedBlockTables := fun _ => none
  hisparseSlots := []
  seqIds := []
  sampleMask := []
  anyReturnCompletionLogprobs := false

/-- Empty rows up to `n` entries. -/
def padRows (rows : List (List ℕ)) (n : ℕ) : List (List ℕ) := rows ++ List.replicate (n - rows.length) []

/-- One iteration of the packing loop. -/
def push (batch : WireBatch) (item : Sequence) : WireBatch :=
  let row := item.packed batch.isPrefill
  let n := batch.seqLens.length
  { batch with
    inputIds := batch.inputIds ++ row.inputIds
    positions := batch.positions ++ row.positions
    seqLens := batch.seqLens ++ [row.inputIds.length]
    blockTables := batch.blockTables ++ [item.activeBlockTable]
    temperatures := batch.temperatures ++ [toFloat32 item.samplingParams.temperature]
    stateSlots := batch.stateSlots ++ [item.activeStateSlot]
    compressedBlockTables := fun ratio =>
      match item.activeCompressedBlockTables ratio, batch.compressedBlockTables ratio with
      | none, none => none
      | none, some rows => some (padRows rows (n + 1))
      | some blocks, rows => some (padRows (rows.getD []) n ++ [blocks])
    hisparseSlots := batch.hisparseSlots ++ [item.activeHisparseSlot]
    seqIds := batch.seqIds ++ [row.seqId]
    sampleMask := batch.sampleMask ++ [row.sample]
    anyReturnCompletionLogprobs :=
      batch.anyReturnCompletionLogprobs || item.samplingParams.returnCompletionLogprobs }

/-- A list cut into pieces of the given lengths. -/
def cut {α : Type} : List ℕ → List α → List (List α)
  | [], _ => []
  | n :: lens, l => l.take n :: cut lens (l.drop n)

/-- The rows of the batch. -/
def rows (batch : WireBatch) : List WireRow :=
  (batch.seqIds.zip (batch.sampleMask.zip
    ((cut batch.seqLens batch.inputIds).zip (cut batch.seqLens batch.positions)))).map
      fun entry => ⟨entry.1, entry.2.2.1, entry.2.2.2, entry.2.1⟩

/-- The lengths of the fields agree. -/
structure WellFormed (batch : WireBatch) : Prop where
  seqIds : batch.seqIds.length = batch.seqLens.length
  sampleMask : batch.sampleMask.length = batch.seqLens.length
  inputIds : batch.inputIds.length = batch.seqLens.foldr (· + ·) 0
  positions : batch.positions.length = batch.seqLens.foldr (· + ·) 0

theorem length_cut {α : Type} (lens : List ℕ) (l : List α) : (cut lens l).length = lens.length := by
  induction lens generalizing l with
  | nil => rfl
  | cons n lens ih => simp [cut, ih]

theorem cut_append {α : Type} {lens : List ℕ} {l : List α} (h : l.length = lens.foldr (· + ·) 0) (m : List α) :
    cut (lens ++ [m.length]) (l ++ m) = cut lens l ++ [m] := by
  induction lens generalizing l with
  | nil =>
    obtain rfl := List.eq_nil_of_length_eq_zero h
    simp [cut]
  | cons n lens ih =>
    rw [List.foldr_cons] at h
    have hle : n ≤ l.length := by omega
    simp only [List.cons_append, cut]
    rw [List.take_append_of_le_length hle, List.drop_append_of_le_length hle, ih (by rw [List.length_drop]; omega)]

theorem empty_wellFormed (isPrefill : Bool) : (empty isPrefill).WellFormed := ⟨rfl, rfl, rfl, rfl⟩

theorem foldr_add_append (lens : List ℕ) (n : ℕ) :
    (lens ++ [n]).foldr (· + ·) 0 = lens.foldr (· + ·) 0 + n := by
  induction lens with
  | nil => simp
  | cons k lens ih =>
    simp only [List.cons_append, List.foldr_cons, ih]
    omega

theorem push_wellFormed {batch : WireBatch} (h : batch.WellFormed) (item : Sequence) :
    (batch.push item).WellFormed where
  seqIds := by simp [push, h.seqIds]
  sampleMask := by simp [push, h.sampleMask]
  inputIds := by
    simp only [push]
    rw [foldr_add_append, List.length_append, h.inputIds]
  positions := by
    simp only [push]
    rw [foldr_add_append, List.length_append, h.positions, item.length_packed]

/-- One more sequence is one more row. -/
theorem rows_push {batch : WireBatch} (h : batch.WellFormed) (item : Sequence) :
    (batch.push item).rows = batch.rows ++ [item.packed batch.isPrefill] := by
  have hpos : cut (batch.seqLens ++ [(item.packed batch.isPrefill).inputIds.length])
      (batch.positions ++ (item.packed batch.isPrefill).positions) =
      cut batch.seqLens batch.positions ++ [(item.packed batch.isPrefill).positions] := by
    rw [← item.length_packed]
    exact cut_append h.positions _
  unfold rows push
  dsimp only
  rw [cut_append h.inputIds, hpos, List.zip_append (by rw [length_cut, length_cut]),
    List.zip_append (by rw [h.sampleMask, List.length_zip, length_cut, length_cut, Nat.min_self]),
    List.zip_append (by
      rw [h.seqIds, List.length_zip, h.sampleMask, List.length_zip, length_cut, length_cut,
        Nat.min_self, Nat.min_self]),
    List.map_append]
  rfl

end WireBatch

/-- `sequence_refs_runner_in_bytes`, without the encoding. -/
def sequenceRefsRunnerIn (seqs : List Sequence) (isPrefill : Bool) : WireBatch :=
  seqs.foldl WireBatch.push (WireBatch.empty isPrefill)

/-- **The runner reads what was packed**: the rows of the batch are the slices of its sequences, in order. -/
theorem rows_sequenceRefsRunnerIn (seqs : List Sequence) (isPrefill : Bool) :
    (sequenceRefsRunnerIn seqs isPrefill).rows = seqs.map (·.packed isPrefill) := by
  have hfold : ∀ (seqs : List Sequence) (batch : WireBatch), batch.WellFormed →
      (seqs.foldl WireBatch.push batch).rows = batch.rows ++ seqs.map (·.packed batch.isPrefill) := by
    intro seqs
    induction seqs with
    | nil => intro batch _; simp
    | cons item seqs ih =>
      intro batch h
      rw [List.foldl_cons, ih _ (WireBatch.push_wellFormed h item), WireBatch.rows_push h item]
      simp [WireBatch.push]
  rw [sequenceRefsRunnerIn, hfold seqs _ (WireBatch.empty_wellFormed isPrefill)]
  rfl

theorem wellFormed_sequenceRefsRunnerIn (seqs : List Sequence) (isPrefill : Bool) :
    (sequenceRefsRunnerIn seqs isPrefill).WellFormed := by
  have hfold : ∀ (seqs : List Sequence) (batch : WireBatch), batch.WellFormed →
      (seqs.foldl WireBatch.push batch).WellFormed := by
    intro seqs
    induction seqs with
    | nil => exact fun batch h => h
    | cons item seqs ih => exact fun batch h => ih _ (WireBatch.push_wellFormed h item)
  exact hfold seqs _ (WireBatch.empty_wellFormed isPrefill)

/-- `serialize_run_batches_for_result`: one batch for every group of every rank. -/
def Scheduler.serializeRunBatches (s : Scheduler) (r : ScheduleResult) : List WireBatch :=
  r.dpGroupSeqIds.map fun seqIds => sequenceRefsRunnerIn (seqIds.filterMap s.seqTable) r.isPrefill

end NanoEngine
