import NanoEngine.Pipeline.Microbatch

/-!
# NanoEngine.Proto.Prepare — what the runner reads off a prefill batch

`runner_in_prefill` of `rust/src/proto/prepare.rs`.

* `WireBatch.slotMapping`: the cache slot of every token.
* `runnerInPrefill`: the lengths, slots, block tables and sampled tokens of a batch.
* `slotMapping_eq_tokenSlots`: the slots are those of the rows, and the index of the token where the row has none.
-/

namespace NanoEngine

/-- `PrefillMeta`. -/
structure PrefillMeta where
  inputIds : List ℤ
  positions : List ℕ
  cuSeqlensQ : List ℕ
  cuSeqlensK : List ℕ
  slotMapping : List ℤ
  useBlockTables : Bool
  blockTablesFlat : List ℕ
  maxNumBlocks : ℕ
  maxSeqlenQ : ℕ
  maxSeqlenK : ℕ
  samplingTokenIndices : List ℕ
  samplingSeqIndices : List ℕ

/-- The slot of position `pos` by the block table, if it has the block. -/
def tableSlot (blockSize : ℕ) (table : List ℕ) (pos : ℕ) : Option ℕ :=
  table[pos / max blockSize 1]?.map fun block => block * max blockSize 1 + pos % max blockSize 1

namespace WireBatch

/-- The variables of the loop over the rows. -/
structure PrefillRows where
  totalQ : ℕ
  totalK : ℕ
  cuQ : List ℕ
  cuK : List ℕ
  maxLenQ : ℕ
  maxLenK : ℕ
  samplingTokenIndices : List ℕ
  samplingSeqIndices : List ℕ

def prefillRow (batch : WireBatch) (st : PrefillRows) (row : ℕ × ℕ) : PrefillRows :=
  let totalQ := st.totalQ + row.1
  let posEnd := if 0 < row.1 then batch.positions.getD (totalQ - 1) (totalQ - 1) + 1 else 0
  let sampled := decide (0 < row.1) && batch.sampleMask.getD row.2 true
  { totalQ := totalQ
    totalK := st.totalK + posEnd
    cuQ := st.cuQ ++ [totalQ]
    cuK := st.cuK ++ [st.totalK + posEnd]
    maxLenQ := max st.maxLenQ row.1
    maxLenK := max st.maxLenK posEnd
    samplingTokenIndices := if sampled then st.samplingTokenIndices ++ [totalQ - 1] else st.samplingTokenIndices
    samplingSeqIndices := if sampled then st.samplingSeqIndices ++ [row.2] else st.samplingSeqIndices }

def prefillRows (batch : WireBatch) : PrefillRows :=
  batch.seqLens.zipIdx.foldl batch.prefillRow ⟨0, 0, [0], [0], 0, 0, [], []⟩

/-- `token_seq_indices`: the row of every token. -/
def tokenSeqIndices (batch : WireBatch) : List ℕ :=
  batch.seqLens.zipIdx.flatMap fun row => List.replicate row.1 row.2

/-- `slot_mapping`: a token whose block the table of its row does not have gets its own index as slot. -/
def slotMapping (isDummy : Bool) (batch : WireBatch) (blockSize : ℕ) : List ℤ :=
  if isDummy then List.replicate batch.prefillRows.totalQ (-1)
  else
    batch.positions.zipIdx.map fun token =>
      let seqIdx := batch.tokenSeqIndices.getD token.2 0
      ((tableSlot blockSize (batch.blockTables.getD seqIdx []) token.1).getD token.2 : ℕ)

/-- `max_blocks`. -/
def maxBlocks (batch : WireBatch) : ℕ := (batch.blockTables.map List.length).foldl max 0

/-- `block_tables_flat`: for every sequence-parallel rank the tables of the first `maxNumSeqs` rows, padded. -/
def blockTablesFlat (isDummy : Bool) (batch : WireBatch) (spSize maxNumSeqs : ℕ) : List ℕ :=
  if !isDummy && decide (0 < batch.maxBlocks) then
    (List.replicate spSize ((List.range (max maxNumSeqs 1)).flatMap fun seqIdx =>
      let blocks := if seqIdx < maxNumSeqs then batch.blockTables.getD seqIdx [] else []
      blocks ++ List.replicate (batch.maxBlocks - blocks.length) 0)).flatten
  else []

end WireBatch

/-- `runner_in_prefill`. -/
def runnerInPrefill (isDummy : Bool) (batch : WireBatch) (spSize blockSize maxNumSeqs : ℕ) : PrefillMeta where
  inputIds := batch.inputIds
  positions := batch.positions
  cuSeqlensQ := batch.prefillRows.cuQ
  cuSeqlensK := batch.prefillRows.cuK
  slotMapping := batch.slotMapping isDummy blockSize
  useBlockTables := !(batch.blockTablesFlat isDummy spSize maxNumSeqs).isEmpty
  blockTablesFlat := batch.blockTablesFlat isDummy spSize maxNumSeqs
  maxNumBlocks := batch.maxBlocks
  maxSeqlenQ := batch.prefillRows.maxLenQ
  maxSeqlenK := batch.prefillRows.maxLenK
  samplingTokenIndices := batch.prefillRows.samplingTokenIndices
  samplingSeqIndices := batch.prefillRows.samplingSeqIndices

/-- The slots of a row by its block table. -/
def PackedRow.slots (blockSize : ℕ) (row : PackedRow) : List (Option ℕ) :=
  row.positions.map (tableSlot blockSize row.info.blockTable)

namespace WireBatch

/-- The slots of all tokens by the block tables of their rows. -/
def tokenSlots (blockSize : ℕ) (batch : WireBatch) : List (Option ℕ) :=
  batch.packedRows.flatMap (PackedRow.slots blockSize)

/-- Tokens cut into rows and tagged with them. -/
theorem zip_flatMap_replicate {α : Type} (lens : List ℕ) (k : ℕ) (l : List α)
    (h : l.length = lens.foldr (· + ·) 0) :
    ((lens.zipIdx k).flatMap fun row => List.replicate row.1 row.2).zip l =
      (List.range lens.length).flatMap fun i =>
        ((l.drop ((lens.take i).foldr (· + ·) 0)).take (lens.getD i 0)).map fun x => (k + i, x) := by
  induction lens generalizing k l with
  | nil => rfl
  | cons n lens ih =>
    rw [List.foldr_cons] at h
    have hzip := ih (k + 1) (l.drop n) (by rw [List.length_drop]; omega)
    have htake : (List.replicate n k).zip (l.take n) = (l.take n).map fun x => (k, x) := by
      have hlen : (l.take n).length = n := by
        rw [List.length_take]
        omega
      exact List.ext_getElem (by rw [List.length_zip, List.length_replicate, hlen, List.length_map, hlen, Nat.min_self])
        fun i _ _ => by simp
    rw [List.zipIdx_cons, List.flatMap_cons]
    conv_lhs => rw [← List.take_append_drop n l]
    rw [List.zip_append (by rw [List.length_replicate, List.length_take]; omega), hzip, htake, List.length_cons,
      List.range_succ_eq_map, List.flatMap_cons, List.flatMap_map]
    have hfirst : ((l.drop (((n :: lens).take 0).foldr (· + ·) 0)).take ((n :: lens).getD 0 0)).map (fun x =>
      (k + 0, x)) =
        (l.take n).map fun x => (k, x) := rfl
    rw [hfirst]
    simp only [List.take_succ_cons, List.foldr_cons, List.drop_drop, List.getD_cons_succ, Nat.succ_eq_add_one,
      Nat.add_assoc, Nat.add_comm 1]

theorem tokenSeqIndices_zip (batch : WireBatch) (h : batch.positions.length = batch.seqLens.foldr (· + ·) 0) :
    batch.tokenSeqIndices.zip batch.positions =
      (List.range batch.seqLens.length).flatMap fun i => (batch.packedRow i).positions.map fun pos => (i, pos) := by
  refine (zip_flatMap_replicate batch.seqLens 0 batch.positions h).trans ?_
  simp only [Nat.zero_add]
  rfl

theorem length_flatMap_replicate (lens : List ℕ) (k : ℕ) :
    ((lens.zipIdx k).flatMap fun row => List.replicate row.1 row.2).length = lens.foldr (· + ·) 0 := by
  induction lens generalizing k with
  | nil => rfl
  | cons n lens ih =>
    rw [List.zipIdx_cons, List.flatMap_cons, List.length_append, ih, List.length_replicate, List.foldr_cons]

theorem length_tokenSeqIndices (batch : WireBatch) :
    batch.tokenSeqIndices.length = batch.seqLens.foldr (· + ·) 0 := length_flatMap_replicate batch.seqLens 0

/-- Rows put one after another again. -/
theorem flatMap_slices {α : Type} {lens : List ℕ} {l : List α} (h : l.length = lens.foldr (· + ·) 0) :
    ((List.range lens.length).flatMap fun i =>
      (l.drop ((lens.take i).foldr (· + ·) 0)).take (lens.getD i 0)) = l := by
  have hzip := congrArg (List.map Prod.snd) (zip_flatMap_replicate lens 0 l h)
  rw [List.map_snd_zip (by rw [length_flatMap_replicate, h]), List.map_flatMap] at hzip
  simpa only [List.map_map, Function.comp_def, List.map_id'] using hzip.symm

theorem flatMap_packedRows_inputIds {batch : WireBatch} (h : batch.inputIds.length = batch.seqLens.foldr (· + ·) 0) :
    batch.packedRows.flatMap PackedRow.inputIds = batch.inputIds := by
  rw [packedRows, List.flatMap_map]
  exact flatMap_slices h

theorem flatMap_packedRows_positions {batch : WireBatch}
    (h : batch.positions.length = batch.seqLens.foldr (· + ·) 0) :
    batch.packedRows.flatMap PackedRow.positions = batch.positions := by
  rw [packedRows, List.flatMap_map]
  exact flatMap_slices h

theorem tokenSlots_eq {batch : WireBatch} (blockSize : ℕ)
    (h : batch.positions.length = batch.seqLens.foldr (· + ·) 0) :
    batch.tokenSlots blockSize = (batch.tokenSeqIndices.zip batch.positions).map fun x =>
      tableSlot blockSize (batch.blockTables.getD x.1 []) x.2 := by
  rw [batch.tokenSeqIndices_zip h, List.map_flatMap, tokenSlots, packedRows, List.flatMap_map]
  simp only [List.map_map]
  rfl

theorem length_tokenSlots {batch : WireBatch} (blockSize : ℕ)
    (h : batch.positions.length = batch.seqLens.foldr (· + ·) 0) :
    (batch.tokenSlots blockSize).length = batch.positions.length := by
  simp [tokenSlots_eq blockSize h, batch.length_tokenSeqIndices, h]

/-- A token gets the slot of its row, or its own index in the batch. -/
theorem slotMapping_eq_tokenSlots {batch : WireBatch} (blockSize : ℕ)
    (h : batch.positions.length = batch.seqLens.foldr (· + ·) 0) :
    batch.slotMapping false blockSize =
      (batch.tokenSlots blockSize).zipIdx.map fun x => ((x.1.getD x.2 : ℕ) : ℤ) := by
  have hlen := batch.length_tokenSeqIndices
  rw [tokenSlots_eq blockSize h, slotMapping, if_neg Bool.false_ne_true]
  refine List.ext_getElem (by simp [hlen, h]) fun i hi _ => ?_
  have hpos : i < batch.positions.length := by simpa using hi
  have htoken : i < batch.tokenSeqIndices.length := by omega
  simp only [List.getElem_map, List.getElem_zipIdx, Nat.zero_add, List.getElem_zip, List.getD_eq_getElem _ _ htoken]

end WireBatch

end NanoEngine
