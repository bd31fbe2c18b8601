import NanoEngine.Lib.Updates
import NanoEngine.Proto.Wire
import Mathlib.Data.List.GetD

/-!
# NanoEngine.Pipeline.Microbatch — a prefill batch cut into microbatches

`prefill_microbatches` of `rust/src/proto/wire.rs`.  The `while` loop over one row takes a bound on its iterations,
which `fillRow_inv` shows to be enough.

* `WireBatch.packedRows`: the rows of a batch with everything that is packed for them.
* `prefillMicrobatches`: the microbatches in order, each with the original row of its rows and whether they end it.
* `Microbatches`: what the runner can rely on; `microbatches_prefillMicrobatches` proves it.
-/

namespace NanoEngine

/-- What a batch holds for one row besides its tokens. -/
structure RowMeta where
  seqId : ℕ
  blockTable : List ℕ
  temperature : ℚ
  stateSlot : ℤ
  compressedBlockTables : ℤ → Option (List ℕ)
  hisparseSlot : ℤ
  sample : Bool

/-- One row of a batch. -/
structure PackedRow where
  info : RowMeta
  inputIds : List ℤ
  positions : List ℕ

/-- The KV entries that the row writes. -/
def PackedRow.writes (row : PackedRow) : List ((ℕ × ℕ) × ℤ) :=
  (row.positions.zip row.inputIds).map fun x => ((row.info.seqId, x.1), x.2)

namespace WireBatch

/-- Where the tokens of row `i` start. -/
def rowOffset (batch : WireBatch) (i : ℕ) : ℕ := (batch.seqLens.take i).foldr (· + ·) 0

/-- `seq_len`. -/
def seqLen (batch : WireBatch) (i : ℕ) : ℕ := batch.seqLens.getD i 0

def rowMeta (batch : WireBatch) (i : ℕ) : RowMeta where
  seqId := batch.seqIds.getD i 0
  blockTable := batch.blockTables.getD i []
  temperature := batch.temperatures.getD i 0
  stateSlot := batch.stateSlots.getD i (-1)
  compressedBlockTables := fun ratio => (batch.compressedBlockTables ratio).map fun rows => rows.getD i []
  hisparseSlot := batch.hisparseSlots.getD i (-1)
  sample := batch.sampleMask.getD i true

def packedRow (batch : WireBatch) (i : ℕ) : PackedRow where
  info := batch.rowMeta i
  inputIds := (batch.inputIds.drop (batch.rowOffset i)).take (batch.seqLen i)
  positions := (batch.positions.drop (batch.rowOffset i)).take (batch.seqLen i)

def packedRows (batch : WireBatch) : List PackedRow := (List.range batch.seqLens.length).map batch.packedRow

end WireBatch

/-- A microbatch with, for each of its rows, the original row and whether it is the last fragment of it. -/
abbrev Microbatch := WireBatch × List (ℕ × Bool)

/-- The variables of the packing loop. -/
structure MicroState where
  result : List Microbatch
  microbatch : WireBatch
  metadata : List (ℕ × Bool)

namespace WireBatch

/-- `make_microbatch`. -/
def makeMicrobatch (batch : WireBatch) : WireBatch :=
  { empty true with
    anyReturnCompletionLogprobs := batch.anyReturnCompletionLogprobs
    compressedBlockTables := fun ratio => (batch.compressedBlockTables ratio).map fun _ => [] }

/-- The fragment from `fragmentStart` to `fragmentEnd` of row `seqIdx`, as a row. -/
def fragment (batch : WireBatch) (seqIdx fragmentStart fragmentEnd : ℕ) (isLast : Bool) : PackedRow where
  info := { batch.rowMeta seqIdx with sample := isLast && (batch.rowMeta seqIdx).sample }
  inputIds := (batch.inputIds.take fragmentEnd).drop fragmentStart
  positions := (batch.positions.take fragmentEnd).drop fragmentStart

/-- The fragment appended to the fields of a microbatch. -/
def pushFragment (batch microbatch : WireBatch) (seqIdx fragmentStart fragmentEnd : ℕ) (isLast : Bool) : WireBatch :=
  { microbatch with
    inputIds := microbatch.inputIds ++ (batch.inputIds.take fragmentEnd).drop fragmentStart
    positions := microbatch.positions ++ (batch.positions.take fragmentEnd).drop fragmentStart
    seqLens := microbatch.seqLens ++ [fragmentEnd - fragmentStart]
    blockTables := microbatch.blockTables ++ [batch.blockTables.getD seqIdx []]
    temperatures := microbatch.temperatures ++ [batch.temperatures.getD seqIdx 0]
    stateSlots := microbatch.stateSlots ++ [batch.stateSlots.getD seqIdx (-1)]
    compressedBlockTables := fun ratio =>
      match batch.compressedBlockTables ratio with
      | some rows => some ((microbatch.compressedBlockTables ratio).getD [] ++ [rows.getD seqIdx []])
      | none => microbatch.compressedBlockTables ratio
    hisparseSlots := microbatch.hisparseSlots ++ [batch.hisparseSlots.getD seqIdx (-1)]
    seqIds := microbatch.seqIds ++ [batch.seqIds.getD seqIdx 0]
    sampleMask := microbatch.sampleMask ++ [isLast && batch.sampleMask.getD seqIdx true] }

end WireBatch

namespace MicroState

/-- `result.push((microbatch, metadata))` and a new microbatch. -/
def flush (batch : WireBatch) (st : MicroState) : MicroState where
  result := st.result ++ [(st.microbatch, st.metadata)]
  microbatch := batch.makeMicrobatch
  metadata := []

/-- The fragment is packed and its metadata recorded. -/
def push (batch : WireBatch) (seqIdx fragmentStart fragmentEnd seqEnd : ℕ) (st : MicroState) : MicroState :=
  { st with
    microbatch := batch.pushFragment st.microbatch seqIdx fragmentStart fragmentEnd (decide (fragmentEnd = seqEnd))
    metadata := st.metadata ++ [(seqIdx, decide (fragmentEnd = seqEnd))] }

end MicroState

/-- The `while` loop over the tokens of one row, for at most `fuel` iterations. -/
def fillRow (batch : WireBatch) (maxTokens seqIdx seqEnd : ℕ) : ℕ → ℕ → MicroState → MicroState
  | 0, _, st => st
  | fuel + 1, fragmentStart, st =>
    if fragmentStart < seqEnd then
      let remaining := maxTokens - st.microbatch.inputIds.length
      if remaining = 0 then
        fillRow batch maxTokens seqIdx seqEnd fuel fragmentStart (st.flush batch)
      else
        let fragmentEnd := min (fragmentStart + remaining) seqEnd
        let st' := st.push batch seqIdx fragmentStart fragmentEnd seqEnd
        fillRow batch maxTokens seqIdx seqEnd fuel fragmentEnd
          (if st'.microbatch.inputIds.length = maxTokens then st'.flush batch else st')
    else st

/-- The `for` loop over the rows, with `token_offset`. -/
def packRows (batch : WireBatch) (maxTokens : ℕ) (st : ℕ × MicroState) (row : ℕ × ℕ) : ℕ × MicroState :=
  if row.1 = 0 then st
  else
    (st.1 + row.1, fillRow batch maxTokens row.2 (st.1 + row.1) (2 * row.1 + 1) st.1 st.2)

/-- `prefill_microbatches`. -/
def prefillMicrobatches (isDummy : Bool) (batch : WireBatch) (maxTokens : ℕ) : List Microbatch :=
  if !batch.isPrefill || isDummy || maxTokens == 0 || batch.seqLens.isEmpty then
    [(batch, batch.seqLens.zipIdx.filterMap fun row => if 0 < row.1 then some (row.2, true) else none)]
  else
    let st := (batch.seqLens.zipIdx.foldl (packRows batch maxTokens) (0, ⟨[], batch.makeMicrobatch, []⟩)).2
    let result := if st.microbatch.inputIds.isEmpty then st.result else st.result ++ [(st.microbatch, st.metadata)]
    if result.isEmpty then [(batch, [])] else result

namespace WireBatch

variable {batch mb : WireBatch} {seqIdx a b : ℕ} {isLast : Bool}

/-- The fields of a microbatch of `batch` have one entry a row. -/
structure Packs (batch mb : WireBatch) : Prop where
  blockTables : mb.blockTables.length = mb.seqLens.length
  temperatures : mb.temperatures.length = mb.seqLens.length
  stateSlots : mb.stateSlots.length = mb.seqLens.length
  hisparseSlots : mb.hisparseSlots.length = mb.seqLens.length
  seqIds : mb.seqIds.length = mb.seqLens.length
  sampleMask : mb.sampleMask.length = mb.seqLens.length
  inputIds : mb.inputIds.length = mb.seqLens.foldr (· + ·) 0
  positions : mb.positions.length = mb.seqLens.foldr (· + ·) 0
  compressed : ∀ ratio, match batch.compressedBlockTables ratio with
    | some _ => ∃ rows, mb.compressedBlockTables ratio = some rows ∧ rows.length = mb.seqLens.length
    | none => mb.compressedBlockTables ratio = none

theorem packs_makeMicrobatch (batch : WireBatch) : batch.Packs batch.makeMicrobatch := by
  refine ⟨rfl, rfl, rfl, rfl, rfl, rfl, rfl, rfl, fun ratio => ?_⟩
  cases h : batch.compressedBlockTables ratio with
  | none => simp [makeMicrobatch, h]
  | some rows => exact ⟨[], by simp [makeMicrobatch, h], rfl⟩

theorem Packs.push (h : batch.Packs mb) (hab : a ≤ b) (hids : b ≤ batch.inputIds.length)
    (hpos : b ≤ batch.positions.length) : batch.Packs (batch.pushFragment mb seqIdx a b isLast) where
  blockTables := by simp [pushFragment, h.blockTables]
  temperatures := by simp [pushFragment, h.temperatures]
  stateSlots := by simp [pushFragment, h.stateSlots]
  hisparseSlots := by simp [pushFragment, h.hisparseSlots]
  seqIds := by simp [pushFragment, h.seqIds]
  sampleMask := by simp [pushFragment, h.sampleMask]
  inputIds := by
    simp only [pushFragment]
    rw [foldr_add_append, List.length_append, h.inputIds, List.length_drop, List.length_take]
    omega
  positions := by
    simp only [pushFragment]
    rw [foldr_add_append, List.length_append, h.positions, List.length_drop, List.length_take]
    omega
  compressed := by
    intro ratio
    have hratio := h.compressed ratio
    simp only [pushFragment]
    split at hratio
    · obtain ⟨rows, hrows, hlen⟩ := hratio
      exact ⟨_, rfl, by simp [hrows, hlen]⟩
    · exact hratio

theorem rowOffset_add_seqLen (mb : WireBatch) {i : ℕ} (hi : i < mb.seqLens.length) :
    mb.rowOffset (i + 1) = mb.rowOffset i + mb.seqLen i := by
  unfold rowOffset seqLen
  rw [List.take_succ_eq_append_getElem hi, foldr_add_append, List.getD_eq_getElem _ _ hi]

theorem rowOffset_le (mb : WireBatch) (i : ℕ) : mb.rowOffset i ≤ mb.seqLens.foldr (· + ·) 0 := by
  unfold rowOffset
  conv_rhs => rw [← List.take_append_drop i mb.seqLens, List.foldr_append]
  generalize (mb.seqLens.drop i).foldr (· + ·) 0 = k
  induction mb.seqLens.take i with
  | nil => simp
  | cons n l ih =>
    simp only [List.foldr_cons]
    omega

/-- Row `i` ends within the tokens and positions. -/
theorem WellFormed.row_le (hwf : batch.WellFormed) {i : ℕ} (hi : i < batch.seqLens.length) :
    batch.rowOffset i + batch.seqLen i ≤ batch.inputIds.length ∧
      batch.rowOffset i + batch.seqLen i ≤ batch.positions.length := by
  have hend := batch.rowOffset_le (i + 1)
  rw [batch.rowOffset_add_seqLen hi] at hend
  exact ⟨hwf.inputIds ▸ hend, hwf.positions ▸ hend⟩

theorem getD_append_length {α : Type} {l : List α} {n : ℕ} (hn : l.length = n) (x d : α) :
    (l ++ [x]).getD n d = x := by
  subst hn
  simp

/-- The rows of the microbatch stay as they are. -/
theorem packedRow_pushFragment_of_lt (h : batch.Packs mb) {i : ℕ} (hi : i < mb.seqLens.length) :
    (batch.pushFragment mb seqIdx a b isLast).packedRow i = mb.packedRow i := by
  have hmeta : (batch.pushFragment mb seqIdx a b isLast).rowMeta i = mb.rowMeta i := by
    simp only [rowMeta, pushFragment, RowMeta.mk.injEq]
    refine ⟨List.getD_append _ _ _ _ (h.seqIds ▸ hi), List.getD_append _ _ _ _ (h.blockTables ▸ hi),
      List.getD_append _ _ _ _ (h.temperatures ▸ hi), List.getD_append _ _ _ _ (h.stateSlots ▸ hi), ?_,
      List.getD_append _ _ _ _ (h.hisparseSlots ▸ hi), List.getD_append _ _ _ _ (h.sampleMask ▸ hi)⟩
    funext ratio
    have hratio := h.compressed ratio
    split at hratio
    · obtain ⟨rows, hrows, hlen⟩ := hratio
      simp only [hrows, Option.getD_some, Option.map_some]
      rw [List.getD_append _ _ _ _ (hlen ▸ hi)]
    · rfl
  have hoffset : (batch.pushFragment mb seqIdx a b isLast).rowOffset i = mb.rowOffset i := by
    simp only [rowOffset, pushFragment]
    rw [List.take_append_of_le_length hi.le]
  have hseqLen : (batch.pushFragment mb seqIdx a b isLast).seqLen i = mb.seqLen i := List.getD_append _ _ _ _ hi
  have hend : mb.rowOffset i + mb.seqLen i ≤ mb.seqLens.foldr (· + ·) 0 :=
    rowOffset_add_seqLen mb hi ▸ rowOffset_le mb (i + 1)
  unfold packedRow
  rw [hmeta, hoffset, hseqLen]
  simp only [pushFragment, PackedRow.mk.injEq, true_and]
  constructor
  · have hlen := h.inputIds
    rw [List.drop_append_of_le_length (by omega), List.take_append_of_le_length (by rw [List.length_drop]; omega)]
  · have hlen := h.positions
    rw [List.drop_append_of_le_length (by omega), List.take_append_of_le_length (by rw [List.length_drop]; omega)]

theorem packedRow_pushFragment_length (h : batch.Packs mb) (hab : a ≤ b) (hids : b ≤ batch.inputIds.length)
    (hpos : b ≤ batch.positions.length) :
    (batch.pushFragment mb seqIdx a b isLast).packedRow mb.seqLens.length = batch.fragment seqIdx a b isLast := by
  have hmeta : (batch.pushFragment mb seqIdx a b isLast).rowMeta mb.seqLens.length =
      { batch.rowMeta seqIdx with sample := isLast && (batch.rowMeta seqIdx).sample } := by
    simp only [rowMeta, pushFragment, RowMeta.mk.injEq]
    refine ⟨getD_append_length h.seqIds _ _, getD_append_length h.blockTables _ _,
      getD_append_length h.temperatures _ _,
      getD_append_length h.stateSlots _ _, ?_, getD_append_length h.hisparseSlots _ _,
      getD_append_length h.sampleMask _ _⟩
    funext ratio
    have hratio := h.compressed ratio
    cases hb : batch.compressedBlockTables ratio with
    | none =>
      simp only [hb] at hratio
      simp [hratio]
    | some rows =>
      simp only [hb] at hratio
      obtain ⟨rows', hrows, hlen⟩ := hratio
      simp only [hrows, Option.getD_some, Option.map_some]
      rw [getD_append_length hlen]
  have hoffset : (batch.pushFragment mb seqIdx a b isLast).rowOffset mb.seqLens.length =
    mb.seqLens.foldr (· + ·) 0 := by
    simp only [rowOffset, pushFragment]
    rw [List.take_left]
  have hseqLen : (batch.pushFragment mb seqIdx a b isLast).seqLen mb.seqLens.length = b - a :=
    getD_append_length rfl _ _
  unfold packedRow fragment
  rw [hmeta, hoffset, hseqLen]
  simp only [pushFragment, PackedRow.mk.injEq, true_and]
  constructor
  · rw [← h.inputIds, List.drop_left, List.take_of_length_le]
    rw [List.length_drop, List.length_take]
    omega
  · rw [← h.positions, List.drop_left, List.take_of_length_le]
    rw [List.length_drop, List.length_take]
    omega

/-- A pushed fragment is one more row. -/
theorem packedRows_pushFragment (seqIdx : ℕ) (isLast : Bool) (h : batch.Packs mb) (hab : a ≤ b)
    (hids : b ≤ batch.inputIds.length) (hpos : b ≤ batch.positions.length) :
    (batch.pushFragment mb seqIdx a b isLast).packedRows = mb.packedRows ++ [batch.fragment seqIdx a b isLast] := by
  unfold packedRows
  have hlen : (batch.pushFragment mb seqIdx a b isLast).seqLens.length = mb.seqLens.length + 1 := by
    simp [pushFragment]
  rw [hlen, List.range_succ, List.map_append, List.map_singleton, packedRow_pushFragment_length h hab hids hpos,
    List.map_congr_left fun i hi => packedRow_pushFragment_of_lt h (List.mem_range.1 hi)]

/-- The tokens of the batch with their positions. -/
def tokens (batch : WireBatch) : List (ℕ × ℤ) := batch.positions.zip batch.inputIds

/-- The entries that row `j` writes for a slice of the tokens. -/
def sliceWrites (batch : WireBatch) (j a b : ℕ) : List ((ℕ × ℕ) × ℤ) :=
  ((batch.tokens.take b).drop a).map fun x => ((batch.seqIds.getD j 0, x.1), x.2)

theorem writes_fragment : (batch.fragment seqIdx a b isLast).writes = batch.sliceWrites seqIdx a b := by
  unfold PackedRow.writes sliceWrites tokens fragment
  simp only [rowMeta, List.zip, List.take_zipWith, List.drop_zipWith]

theorem packedRow_eq_fragment (batch : WireBatch) (j : ℕ) :
    batch.packedRow j = batch.fragment j (batch.rowOffset j) (batch.rowOffset j + batch.seqLen j) true := by
  unfold packedRow fragment
  simp only [List.drop_take, Nat.add_sub_cancel_left, Bool.true_and]

theorem writes_packedRow (batch : WireBatch) (j : ℕ) :
    (batch.packedRow j).writes = batch.sliceWrites j (batch.rowOffset j) (batch.rowOffset j + batch.seqLen j) := by
  rw [packedRow_eq_fragment, writes_fragment]

theorem sliceWrites_append (batch : WireBatch) (j : ℕ) {a b c : ℕ} (hab : a ≤ b) (hbc : b ≤ c) :
    batch.sliceWrites j a c = batch.sliceWrites j a b ++ batch.sliceWrites j b c := by
  unfold sliceWrites
  rw [← List.map_append]
  congr 1
  rw [List.drop_take, List.drop_take, List.drop_take, show c - a = (b - a) + (c - b) by omega, List.take_add,
    List.drop_drop, Nat.add_sub_cancel' hab]

theorem sliceWrites_subset (batch : WireBatch) (j : ℕ) {a b c d : ℕ} (hac : c ≤ a) (hbd : b ≤ d)
    {x : (ℕ × ℕ) × ℤ} (hx : x ∈ batch.sliceWrites j a b) : x ∈ batch.sliceWrites j c d := by
  have htake : (batch.tokens.take b).Sublist (batch.tokens.take d) := (List.take_prefix_take_left hbd).sublist
  exact List.map_subset _ ((htake.drop a).trans (List.drop_sublist_drop_left _ hac)).subset hx

end WireBatch

/-- The row of a microbatch with metadata `m`: a fragment of the original row, which has tokens, up to its end if `m`
says so. -/
structure WireBatch.FragmentOf (batch : WireBatch) (row : PackedRow) (m : ℕ × Bool) : Prop where
  lt : m.1 < batch.seqLens.length
  pos : 0 < batch.seqLen m.1
  info : row.info = { batch.rowMeta m.1 with sample := m.2 && (batch.rowMeta m.1).sample }
  subset : ∀ x ∈ row.writes, x ∈ (batch.packedRow m.1).writes
  last : m.2 = true → row.positions.getLast? = (batch.packedRow m.1).positions.getLast?

/-- The entries that a sequence of calls writes. -/
def callWrites (calls : List Microbatch) : List ((ℕ × ℕ) × ℤ) :=
  calls.flatMap fun c => c.1.packedRows.flatMap PackedRow.writes

/-- The calls compute fragments of the rows, and the last fragment of a row comes when all of the row is written. -/
structure Microbatches (batch : WireBatch) (calls : List Microbatch) : Prop where
  fragments : ∀ c ∈ calls, List.Forall₂ batch.FragmentOf c.1.packedRows c.2
  complete : ∀ pre c post, calls = pre ++ c :: post → ∀ j, (j, true) ∈ c.2 →
    ∀ x ∈ (batch.packedRow j).writes, x ∈ callWrites (pre ++ [c])
  logprobs : ∀ c ∈ calls, c.1.anyReturnCompletionLogprobs = batch.anyReturnCompletionLogprobs

theorem callWrites_append (calls calls' : List Microbatch) :
    callWrites (calls ++ calls') = callWrites calls ++ callWrites calls' := List.flatMap_append

theorem Microbatches.of_append {batch : WireBatch} {calls calls' : List Microbatch}
    (h : Microbatches batch (calls ++ calls')) : Microbatches batch calls where
  fragments := fun c hc => h.fragments c (List.mem_append_left _ hc)
  complete := by
    rintro pre c post rfl
    exact h.complete pre c (post ++ calls') (by simp)
  logprobs := fun c hc => h.logprobs c (List.mem_append_left _ hc)

/-- One more call, or the same calls with a later last one. -/
theorem Microbatches.concat {batch : WireBatch} {calls : List Microbatch} {c : Microbatch}
    (h : Microbatches batch calls) (hfragments : List.Forall₂ batch.FragmentOf c.1.packedRows c.2)
    (hcomplete : ∀ j, (j, true) ∈ c.2 → ∀ x ∈ (batch.packedRow j).writes, x ∈ callWrites (calls ++ [c]))
    (hlogprobs : c.1.anyReturnCompletionLogprobs = batch.anyReturnCompletionLogprobs) :
    Microbatches batch (calls ++ [c]) where
  fragments := by
    intro d hd
    rcases List.mem_append.1 hd with hd | hd
    · exact h.fragments d hd
    · rw [List.mem_singleton.1 hd]
      exact hfragments
  complete := by
    intro pre d post hsplit
    rcases List.eq_nil_or_concat post with rfl | ⟨post, e, rfl⟩
    · obtain ⟨rfl, hd⟩ := List.append_inj' hsplit rfl
      cases hd
      exact hcomplete
    · rw [List.concat_eq_append, ← List.cons_append, ← List.append_assoc] at hsplit
      obtain ⟨rfl, -⟩ := List.append_inj' hsplit rfl
      exact h.complete pre d post rfl
  logprobs := by
    intro d hd
    rcases List.mem_append.1 hd with hd | hd
    · exact h.logprobs d hd
    · rw [List.mem_singleton.1 hd]
      exact hlogprobs

/-- All calls, the open one included. -/
def MicroState.calls (st : MicroState) : List Microbatch := st.result ++ [(st.microbatch, st.metadata)]

/-- The loop invariant: the rows before `i` are packed, and row `i` up to the token `a`. -/
structure MicroInv (batch : WireBatch) (i a : ℕ) (st : MicroState) : Prop where
  calls : Microbatches batch st.calls
  packs : batch.Packs st.microbatch
  nonempty : st.metadata ≠ [] → st.microbatch.inputIds ≠ []
  written : ∀ x ∈ batch.sliceWrites i (batch.rowOffset i) a, x ∈ callWrites st.calls
  ended : ∀ j < i, 0 < batch.seqLen j → ∃ c ∈ st.calls, (j, true) ∈ c.2

section Loop

variable {batch : WireBatch} {i a b : ℕ} {st : MicroState}

theorem MicroInv.flush (h : MicroInv batch i a st) : MicroInv batch i a (st.flush batch) where
  calls := h.calls.concat .nil (fun _ hj => absurd hj List.not_mem_nil) rfl
  packs := batch.packs_makeMicrobatch
  nonempty := fun hne => absurd rfl hne
  written := fun x hx => by
    rw [MicroState.calls, callWrites_append]
    exact List.mem_append_left _ (h.written x hx)
  ended := fun j hj hpos => by
    obtain ⟨c, hc, hmem⟩ := h.ended j hj hpos
    exact ⟨c, List.mem_append_left _ hc, hmem⟩

theorem getLast?_slice {α : Type} {l : List α} {a b c : ℕ} (ha : a < b) (hc : c < b) (hb : b ≤ l.length) :
    ((l.take b).drop a).getLast? = ((l.take b).drop c).getLast? := by
  rw [List.getLast?_drop, List.getLast?_drop, if_neg, if_neg] <;> (rw [List.length_take]; omega)

/-- The fragment from `a` to `b` of row `i` goes into the open microbatch. -/
theorem MicroInv.push (h : MicroInv batch i a st) (hwf : batch.WellFormed) (hi : i < batch.seqLens.length)
    (hstart : batch.rowOffset i ≤ a) (hab : a < b) (hb : b ≤ batch.rowOffset i + batch.seqLen i) :
    MicroInv batch i b (st.push batch i a b (batch.rowOffset i + batch.seqLen i)) := by
  have hids : b ≤ batch.inputIds.length := hb.trans (hwf.row_le hi).1
  have hpos : b ≤ batch.positions.length := hb.trans (hwf.row_le hi).2
  have hrows := WireBatch.packedRows_pushFragment i
    (decide (b = batch.rowOffset i + batch.seqLen i)) h.packs hab.le hids
    hpos
  have hcalls : callWrites (st.push batch i a b (batch.rowOffset i + batch.seqLen i)).calls =
      callWrites st.calls ++ batch.sliceWrites i a b := by
    simp only [MicroState.calls, MicroState.push, callWrites_append]
    simp only [callWrites, List.flatMap_singleton, hrows, List.flatMap_append, WireBatch.writes_fragment,
      List.append_assoc]
  have hwritten : ∀ x ∈ batch.sliceWrites i (batch.rowOffset i) b,
      x ∈ callWrites (st.push batch i a b (batch.rowOffset i + batch.seqLen i)).calls := by
    intro x hx
    rw [batch.sliceWrites_append i hstart hab.le] at hx
    rw [hcalls]
    rcases List.mem_append.1 hx with hx | hx
    · exact List.mem_append_left _ (h.written x hx)
    · exact List.mem_append_right _ hx
  have hopen : (st.microbatch, st.metadata) ∈ st.calls := List.mem_append_right _ (List.mem_singleton_self _)
  have hlogprobs : st.microbatch.anyReturnCompletionLogprobs = batch.anyReturnCompletionLogprobs :=
    h.calls.logprobs _ hopen
  -- only the last call is new: the microbatches flushed before are untouched
  refine ⟨h.calls.of_append.concat ?_ ?_ hlogprobs, h.packs.push hab.le hids hpos, fun _ => ?_, hwritten, ?_⟩
  · show List.Forall₂ batch.FragmentOf (batch.pushFragment st.microbatch i a b _).packedRows (st.metadata ++ [_])
    rw [hrows]
    refine List.rel_append (h.calls.fragments _ hopen) (.cons ?_ .nil)
    refine ⟨hi, by dsimp only; omega, rfl, fun x hx => ?_, fun hlast => ?_⟩
    · rw [WireBatch.writes_fragment] at hx
      rw [WireBatch.writes_packedRow]
      exact batch.sliceWrites_subset i hstart hb hx
    · -- the last fragment ends where the row ends
      obtain rfl : b = batch.rowOffset i + batch.seqLen i := of_decide_eq_true hlast
      rw [WireBatch.packedRow_eq_fragment]
      exact getLast?_slice hab (hstart.trans_lt hab) hpos
  · intro j hj x hx
    show x ∈ callWrites (st.push batch i a b (batch.rowOffset i + batch.seqLen i)).calls
    rcases List.mem_append.1 hj with hj | hj
    · rw [hcalls]
      exact List.mem_append_left _ (h.calls.complete _ _ _ rfl j hj x hx)
    · obtain ⟨rfl, hlast⟩ := Prod.ext_iff.1 (List.mem_singleton.1 hj)
      rw [WireBatch.writes_packedRow, ← of_decide_eq_true hlast.symm] at hx
      exact hwritten x hx
  · simp only [MicroState.push, WireBatch.pushFragment]
    intro hnil
    have hlen := congrArg List.length hnil
    simp only [List.length_append, List.length_drop, List.length_take, List.length_nil] at hlen
    omega
  · intro j hj hlen
    obtain ⟨c, hc, hmem⟩ := h.ended j hj hlen
    rcases List.mem_append.1 hc with hc | hc
    · exact ⟨c, List.mem_append_left _ hc, hmem⟩
    · rw [List.mem_singleton.1 hc] at hmem
      exact ⟨_, List.mem_append_right _ (List.mem_singleton_self _), List.mem_append_left _ hmem⟩

/-- At the end of row `i`, with its last fragment packed. -/
theorem MicroInv.next (h : MicroInv batch i a st) (hi : i < batch.seqLens.length)
    (ha : a = batch.rowOffset i + batch.seqLen i)
    (hended : 0 < batch.seqLen i → ∃ c ∈ st.calls, (i, true) ∈ c.2) :
    MicroInv batch (i + 1) a st := by
  refine ⟨h.calls, h.packs, h.nonempty, fun x hx => ?_, fun j hj hpos => ?_⟩
  · rw [batch.rowOffset_add_seqLen hi, ← ha, WireBatch.sliceWrites,
      List.drop_of_length_le (by rw [List.length_take]; omega)] at hx
    cases hx
  · rcases Nat.lt_succ_iff_lt_or_eq.1 hj with hj | rfl
    · exact h.ended j hj hpos
    · exact hended hpos

/-- A microbatch is flushed when it is full, and a fragment that is pushed fits: what both preserve holds at the end of
the row.  An iteration that only flushes is followed by one that takes tokens, so two iterations a token are enough. -/
theorem fillRow_rule {maxTokens fuel : ℕ} {J : ℕ → MicroState → Prop} (hmax : 0 < maxTokens)
    (hids : batch.rowOffset i + batch.seqLen i ≤ batch.inputIds.length)
    (hflush : ∀ a st, J a st → st.microbatch.inputIds.length = maxTokens → J a (st.flush batch))
    (hpush : ∀ a b st, J a st → batch.rowOffset i ≤ a → a < b → b ≤ batch.rowOffset i + batch.seqLen i →
      st.microbatch.inputIds.length + (b - a) ≤ maxTokens →
      J b (st.push batch i a b (batch.rowOffset i + batch.seqLen i)))
    (h : J a st) (hstart : batch.rowOffset i ≤ a) (ha : a ≤ batch.rowOffset i + batch.seqLen i)
    (hlen : st.microbatch.inputIds.length ≤ maxTokens)
    (hfuel : 2 * (batch.rowOffset i + batch.seqLen i - a) + 1 ≤ fuel ∨
      2 * (batch.rowOffset i + batch.seqLen i - a) ≤ fuel ∧ st.microbatch.inputIds.length < maxTokens) :
    ∃ st', fillRow batch maxTokens i (batch.rowOffset i + batch.seqLen i) fuel a st = st' ∧
      J (batch.rowOffset i + batch.seqLen i) st' ∧ st'.microbatch.inputIds.length ≤ maxTokens := by
  -- on the fuel, which counts two iterations for each token that is left
  induction fuel generalizing a st with
  | zero =>
    obtain rfl : a = batch.rowOffset i + batch.seqLen i := by omega
    exact ⟨st, rfl, h, hlen⟩
  | succ fuel ih =>
    rw [fillRow]
    by_cases hlt : a < batch.rowOffset i + batch.seqLen i
    swap
    · obtain rfl : a = batch.rowOffset i + batch.seqLen i := by omega
      rw [if_neg hlt]
      exact ⟨st, rfl, h, hlen⟩
    rw [if_pos hlt]
    dsimp only
    by_cases hfull : maxTokens - st.microbatch.inputIds.length = 0
    · -- the open microbatch is full
      rw [if_pos hfull]
      exact ih (hflush a st h (by omega)) hstart ha (Nat.zero_le _) (Or.inr ⟨by omega, hmax⟩)
    · rw [if_neg hfull]
      generalize hb : min (a + (maxTokens - st.microbatch.inputIds.length)) (batch.rowOffset i + batch.seqLen i) = b
      have hnext := hpush a b st h hstart (by omega) (by omega) (by omega)
      have hnextLen : (st.push batch i a b (batch.rowOffset i + batch.seqLen i)).microbatch.inputIds.length =
          st.microbatch.inputIds.length + (b - a) := by
        simp only [MicroState.push, WireBatch.pushFragment, List.length_append, List.length_drop, List.length_take]
        omega
      split_ifs with hmaxed
      · exact ih (hflush b _ hnext hmaxed) (by omega) (by omega) (Nat.zero_le _) (Or.inr ⟨by omega, hmax⟩)
      · exact ih hnext (by omega) (by omega) (by omega) (Or.inr ⟨by omega, by omega⟩)

/-- What flushes and fragments preserve, and what carries over from the end of a row to the start of the next one, holds
after the `for` loop. -/
theorem packRows_rule {maxTokens : ℕ} {J : ℕ → ℕ → MicroState → Prop} (hmax : 0 < maxTokens)
    (hwf : batch.WellFormed)
    (hflush : ∀ i a st, J i a st → st.microbatch.inputIds.length = maxTokens → J i a (st.flush batch))
    (hpush : ∀ i a b st, i < batch.seqLens.length → J i a st → batch.rowOffset i ≤ a → a < b →
      b ≤ batch.rowOffset i + batch.seqLen i → st.microbatch.inputIds.length + (b - a) ≤ maxTokens →
      J i b (st.push batch i a b (batch.rowOffset i + batch.seqLen i)))
    (hnext : ∀ i st, i < batch.seqLens.length → J i (batch.rowOffset i + batch.seqLen i) st →
      J (i + 1) (batch.rowOffset (i + 1)) st) :
    ∀ (lens : List ℕ) (k : ℕ) (st : MicroState), batch.seqLens.drop k = lens → k ≤ batch.seqLens.length →
      J k (batch.rowOffset k) st → st.microbatch.inputIds.length ≤ maxTokens →
      ∃ st', (lens.zipIdx k).foldl (packRows batch maxTokens) (batch.rowOffset k, st) =
          (batch.rowOffset batch.seqLens.length, st') ∧
        J batch.seqLens.length (batch.rowOffset batch.seqLens.length) st' ∧
        st'.microbatch.inputIds.length ≤ maxTokens := by
  intro lens
  -- over the rows from `k` on, with the offset that the fold carries
  induction lens with
  | nil =>
    intro k st hdrop hk h hlen
    obtain rfl : k = batch.seqLens.length := le_antisymm hk (List.drop_eq_nil_iff.1 hdrop)
    exact ⟨st, rfl, h, hlen⟩
  | cons n lens ih =>
    intro k st hdrop hk h hlen
    have hlt : k < batch.seqLens.length := by
      by_contra hge
      rw [List.drop_of_length_le (by omega)] at hdrop
      cases hdrop
    rw [List.drop_eq_getElem_cons hlt] at hdrop
    obtain ⟨hn, hrest⟩ := List.cons.inj hdrop
    have hseqLen : batch.seqLen k = n := by
      rw [WireBatch.seqLen, List.getD_eq_getElem _ _ hlt, hn]
    have hoffset := batch.rowOffset_add_seqLen hlt
    rw [List.zipIdx_cons, List.foldl_cons, packRows]
    split_ifs with hzero
    · -- an empty row is skipped
      dsimp only at hzero
      have hrow : batch.rowOffset k = batch.rowOffset k + batch.seqLen k := by omega
      rw [hrow] at h
      rw [hrow, ← hoffset]
      exact ih (k + 1) st hrest hlt (hnext k st hlt h) hlen
    · obtain ⟨st', hst', hrow, hlen'⟩ :=
        fillRow_rule hmax (hwf.row_le hlt).1 (hflush k) (fun a b st => hpush k a b st hlt) h le_rfl
        (Nat.le_add_right _ _) hlen (Or.inl le_rfl)
      rw [hseqLen] at hst'
      dsimp only
      rw [show batch.rowOffset k + n - batch.rowOffset k = n by omega] at hst'
      rw [hst', ← hseqLen, ← hoffset]
      exact ih (k + 1) st' hrest hlt (hnext k st' hlt hrow) hlen'

/-- The row that is being packed has its last fragment once all of its tokens are packed. -/
structure RowInv (batch : WireBatch) (i a : ℕ) (st : MicroState) : Prop extends MicroInv batch i a st where
  rowEnded : batch.rowOffset i < a → a = batch.rowOffset i + batch.seqLen i → ∃ c ∈ st.calls, (i, true) ∈ c.2

theorem RowInv.flush (h : RowInv batch i a st) : RowInv batch i a (st.flush batch) where
  toMicroInv := h.toMicroInv.flush
  rowEnded := fun hlt heq => by
    obtain ⟨c, hc, hmem⟩ := h.rowEnded hlt heq
    exact ⟨c, List.mem_append_left _ hc, hmem⟩

theorem RowInv.push (h : RowInv batch i a st) (hwf : batch.WellFormed) (hi : i < batch.seqLens.length)
    (hstart : batch.rowOffset i ≤ a) (hab : a < b) (hb : b ≤ batch.rowOffset i + batch.seqLen i) :
    RowInv batch i b (st.push batch i a b (batch.rowOffset i + batch.seqLen i)) where
  toMicroInv := h.toMicroInv.push hwf hi hstart hab hb
  rowEnded := fun _ heq => by
    refine ⟨_, List.mem_append_right _ (List.mem_singleton_self _), List.mem_append_right _ ?_⟩
    rw [List.mem_singleton, decide_eq_true heq]

theorem RowInv.next (h : RowInv batch i (batch.rowOffset i + batch.seqLen i) st) (hi : i < batch.seqLens.length) :
    RowInv batch (i + 1) (batch.rowOffset (i + 1)) st where
  toMicroInv := by
    rw [batch.rowOffset_add_seqLen hi]
    exact h.toMicroInv.next hi rfl fun hpos => h.rowEnded (by omega) rfl
  rowEnded := fun hlt => absurd hlt (lt_irrefl _)

/-- The `for` loop packs all rows. -/
theorem packRows_inv {maxTokens : ℕ} (hmax : 0 < maxTokens) (hwf : batch.WellFormed)
    (h : MicroInv batch 0 (batch.rowOffset 0) st) (hlen : st.microbatch.inputIds.length ≤ maxTokens) :
    ∃ st', batch.seqLens.zipIdx.foldl (packRows batch maxTokens) (batch.rowOffset 0, st) =
        (batch.rowOffset batch.seqLens.length, st') ∧
      MicroInv batch batch.seqLens.length (batch.rowOffset batch.seqLens.length) st' := by
  obtain ⟨st', hst', hinv, -⟩ := packRows_rule (J := RowInv batch) hmax hwf (fun _ _ _ h _ => h.flush)
    (fun _ _ _ _ hi h hstart hab hb _ => h.push hwf hi hstart hab hb) (fun _ _ hi h => h.next hi) batch.seqLens 0 st rfl
    (Nat.zero_le _) ⟨h, fun hlt => absurd hlt (lt_irrefl _)⟩ hlen
  exact ⟨st', hst', hinv.toMicroInv⟩

end Loop

theorem Microbatches.nil (batch : WireBatch) : Microbatches batch [] := ⟨by simp, by simp, by simp⟩

theorem MicroInv.init (batch : WireBatch) :
    MicroInv batch 0 (batch.rowOffset 0) ⟨[], batch.makeMicrobatch, []⟩ where
  calls := (Microbatches.nil batch).concat .nil (fun _ hj => absurd hj List.not_mem_nil) rfl
  packs := batch.packs_makeMicrobatch
  nonempty := fun hne => absurd rfl hne
  written := fun x hx => by simp [WireBatch.sliceWrites, WireBatch.rowOffset] at hx
  ended := fun j hj => absurd hj (Nat.not_lt_zero j)

/-- An open microbatch without tokens is not returned, and nothing is lost with it. -/
theorem MicroInv.result {batch : WireBatch} {i a : ℕ} {st : MicroState} (h : MicroInv batch i a st) :
    Microbatches batch (if st.microbatch.inputIds.isEmpty then st.result else st.calls) ∧
      ∀ j < i, 0 < batch.seqLen j →
        ∃ c ∈ (if st.microbatch.inputIds.isEmpty then st.result else st.calls), (j, true) ∈ c.2 := by
  split_ifs with hempty
  · have hmeta : st.metadata = [] := by
      by_contra hne
      exact h.nonempty hne (List.isEmpty_iff.1 hempty)
    refine ⟨h.calls.of_append, fun j hj hpos => ?_⟩
    obtain ⟨c, hc, hmem⟩ := h.ended j hj hpos
    rcases List.mem_append.1 hc with hc | hc
    · exact ⟨c, hc, hmem⟩
    · rw [List.mem_singleton.1 hc, hmeta] at hmem
      cases hmem
  · exact ⟨h.calls, h.ended⟩

/-- Every row with tokens has a last fragment, and the microbatches are what the runner needs.  A batch without any
token comes back as one call without fragments. -/
theorem microbatches_prefillMicrobatches {batch : WireBatch} {maxTokens : ℕ} (hprefill : batch.isPrefill = true)
    (hmax : 0 < maxTokens) (hwf : batch.WellFormed) :
    (prefillMicrobatches false batch maxTokens = [(batch, [])] ∧ ∀ j < batch.seqLens.length, batch.seqLen j = 0) ∨
      Microbatches batch (prefillMicrobatches false batch maxTokens) ∧
        ∀ j < batch.seqLens.length, 0 < batch.seqLen j →
          ∃ c ∈ prefillMicrobatches false batch maxTokens, (j, true) ∈ c.2 := by
  by_cases hnil : batch.seqLens = []
  · refine Or.inl ⟨?_, fun j hj => by simp [hnil] at hj⟩
    simp [prefillMicrobatches, hnil]
  obtain ⟨st, hst, hinv⟩ := packRows_inv hmax hwf (MicroInv.init batch) (Nat.zero_le _)
  rw [show batch.rowOffset 0 = 0 from rfl] at hst
  obtain ⟨hcalls, hended⟩ := hinv.result
  have hresult : prefillMicrobatches false batch maxTokens =
      if (if st.microbatch.inputIds.isEmpty then st.result else st.calls).isEmpty then [(batch, [])]
      else if st.microbatch.inputIds.isEmpty then st.result else st.calls := by
    unfold prefillMicrobatches
    rw [if_neg (by simp [hprefill, hmax.ne', hnil]), hst]
    rfl
  rw [hresult]
  by_cases hempty : (if st.microbatch.inputIds.isEmpty then st.result else st.calls) = []
  · refine Or.inl ⟨by rw [hempty]; rfl, fun j hj => ?_⟩
    by_contra hpos
    obtain ⟨c, hc, -⟩ := hended j hj (by omega)
    rw [hempty] at hc
    cases hc
  · rw [if_neg (by simpa using hempty)]
    exact Or.inr ⟨hcalls, hended⟩

end NanoEngine
