import NanoEngine.Worker.Sample

/-!
# NanoEngine.Worker.DecodeInput — the input of a decode step

`runner_in_decode` of `rust/src/proto/prepare.rs` and `prepare_decode_bytes` of `runtime/runner/input_preparer.py`, with
one sequence-parallel rank, which the runner asserts.

* `DecodeBatch`: what the scheduler sends, or the dummy batch of a rank without work.
* `OneToken`: a decode batch holds one token of each of its sequences.
* `prepareDecode`: the tokens, their positions and the context that the attention layers read.
* `compressedRows_slot`: the row of a state slot holds the pages of its sequence.
-/

namespace NanoEngine

namespace WireBatch

/-- `WireBatch::dummy`. -/
def dummy (isPrefill : Bool) : WireBatch where
  isPrefill := isPrefill
  inputIds := [0]
  positions := [0]
  seqLens := [1]
  blockTables := [[]]
  temperatures := [0]
  stateSlots := [-1]
  compressedBlockTables := fun _ => none
  hisparseSlots := [-1]
  seqIds := [0]
  sampleMask := [true]
  anyReturnCompletionLogprobs := false

/-- One token, position, block table and slot a sequence. -/
structure OneToken (batch : WireBatch) : Prop where
  inputIds : batch.inputIds.length = batch.numGroupSeqs
  positions : batch.positions.length = batch.numGroupSeqs
  blockTables : batch.blockTables.length = batch.numGroupSeqs
  stateSlots : batch.stateSlots.length = batch.numGroupSeqs
  hisparseSlots : batch.hisparseSlots.length = batch.numGroupSeqs
  compressed : ∀ ratio rows, batch.compressedBlockTables ratio = some rows → rows.length = batch.numGroupSeqs

end WireBatch

inductive DecodeBatch
  | sequences (seqs : List Sequence)
  | dummy

namespace DecodeBatch

def isDummy : DecodeBatch → Bool
  | .sequences _ => false
  | .dummy => true

def wire : DecodeBatch → WireBatch
  | .sequences seqs => sequenceRefsRunnerIn seqs false
  | .dummy => .dummy false

/-- `input_ids.size(0)`. -/
def size (batch : DecodeBatch) : ℕ := batch.wire.inputIds.length

end DecodeBatch

/-! ## One token a sequence -/

namespace WireBatch

theorem length_padRows {rows : List (List ℕ)} {n : ℕ} (h : rows.length ≤ n) : (padRows rows n).length = n := by
  rw [padRows, List.length_append, List.length_replicate]
  omega

theorem OneToken.push {batch : WireBatch} (h : batch.OneToken) (hdecode : batch.isPrefill = false) (item : Sequence) :
    (batch.push item).OneToken := by
  have hsize : (batch.push item).numGroupSeqs = batch.numGroupSeqs + 1 := by
    simp [WireBatch.push, numGroupSeqs]
  refine ⟨?_, ?_, ?_, ?_, ?_, fun ratio rows hrows => ?_⟩
  · rw [hsize]
    simp [WireBatch.push, hdecode, Sequence.packed, h.inputIds]
  · rw [hsize]
    simp [WireBatch.push, hdecode, Sequence.packed, h.positions]
  · rw [hsize]
    simp [WireBatch.push, h.blockTables]
  · rw [hsize]
    simp [WireBatch.push, h.stateSlots]
  · rw [hsize]
    simp [WireBatch.push, h.hisparseSlots]
  · rw [hsize]
    unfold WireBatch.push at hrows
    dsimp only at hrows
    cases hitem : item.activeCompressedBlockTables ratio with
    | none =>
      cases hbatch : batch.compressedBlockTables ratio with
      | none => simp [hitem, hbatch] at hrows
      | some old =>
        have hold := h.compressed ratio old hbatch
        simp only [hitem, hbatch, Option.some.injEq] at hrows
        rw [← hrows]
        exact length_padRows (by rw [hold]; exact Nat.le_succ _)
    | some blocks =>
      have hle : ((batch.compressedBlockTables ratio).getD []).length ≤ batch.numGroupSeqs := by
        cases hbatch : batch.compressedBlockTables ratio with
        | none => exact Nat.zero_le _
        | some old => exact Nat.le_of_eq (h.compressed ratio old hbatch)
      simp only [hitem, Option.some.injEq] at hrows
      rw [← hrows, List.length_append]
      exact congrArg (· + 1) (length_padRows hle)

theorem oneToken_foldl (seqs : List Sequence) {batch : WireBatch} (h : batch.OneToken)
    (hdecode : batch.isPrefill = false) :
    (seqs.foldl WireBatch.push batch).OneToken := by
  induction seqs generalizing batch with
  | nil => exact h
  | cons item seqs ih => exact ih (h.push hdecode item) hdecode

end WireBatch

theorem DecodeBatch.oneToken (batch : DecodeBatch) : batch.wire.OneToken := by
  cases batch with
  | sequences seqs =>
    refine WireBatch.oneToken_foldl seqs ⟨rfl, rfl, rfl, rfl, rfl, ?_⟩ rfl
    intro ratio rows hrows
    cases hrows
  | dummy =>
    refine ⟨rfl, rfl, rfl, rfl, rfl, ?_⟩
    intro ratio rows hrows
    cases hrows

/-! ## The metadata -/

/-- `DecodeMeta`. -/
structure DecodeMeta where
  inputIds : List ℤ
  positions : List ℕ
  slotMapping : List ℤ
  contextLensFlat : List ℕ
  blockTablesFlat : List ℕ
  maxNumBlocks : ℕ

namespace WireBatch

/-- `slot_mapping` of a decode: a row whose table does not have its block gets its own index as slot. -/
def decodeSlotMapping (isDummy : Bool) (batch : WireBatch) (blockSize : ℕ) : List ℤ :=
  if isDummy then List.replicate batch.numGroupSeqs (-1)
  else
    batch.positions.zipIdx.map fun token =>
      ((tableSlot blockSize (batch.blockTables.getD token.2 []) token.1).getD token.2 : ℕ)

/-- `max_num_blocks` of a decode. -/
def decodeMaxBlocks (batch : WireBatch) : ℕ := max batch.maxBlocks 1

def decodeBlockTablesFlat (isDummy : Bool) (batch : WireBatch) (spSize : ℕ) : List ℕ :=
  if isDummy then []
  else
    (List.replicate spSize ((List.range (max batch.numGroupSeqs 1)).flatMap fun seqIdx =>
      let blocks := batch.blockTables.getD seqIdx []
      blocks ++ List.replicate (batch.decodeMaxBlocks - blocks.length) 0)).flatten

def decodeContextLensFlat (batch : WireBatch) (spSize maxNumSeqs : ℕ) : List ℕ :=
  let num := min batch.numGroupSeqs maxNumSeqs
  ((List.range num).map fun i => batch.positions.getD i 0 + 1) ++ List.replicate (spSize * maxNumSeqs - num) 0

end WireBatch

/-- `runner_in_decode`. -/
def runnerInDecode (isDummy : Bool) (batch : WireBatch) (spSize blockSize maxNumSeqs : ℕ) : DecodeMeta where
  inputIds := batch.inputIds
  positions := batch.positions
  slotMapping := batch.decodeSlotMapping isDummy blockSize
  contextLensFlat := batch.decodeContextLensFlat spSize maxNumSeqs
  blockTablesFlat := batch.decodeBlockTablesFlat isDummy spSize
  maxNumBlocks := if isDummy then 0 else batch.decodeMaxBlocks

/-! ## The context -/

/-- What the preparer and the graph runner read of the configuration, the model and the caches. -/
structure DecodeConfig where
  maxNumSeqs : ℕ
  maxModelLen : ℕ
  blockSize : ℕ
  isMla : Bool
  isDsv4 : Bool
  /-- `gdn_conv_states.shape[1]`, with linear attention layers -/
  gdnNumSlots : Option ℕ
  /-- `num_pages`, `page_size` and `max_blocks` of a ratio -/
  compressedPoolConfig : ℤ → Option (ℕ × ℕ × ℕ)
  compressedDummyPages : ℤ → Option ℕ
  enableHisparse : Bool
  planHasGqa : Bool
  tokensPerSeq : ℕ
  /-- `DLENGINE_USE_FLASHINFER_DECODE` -/
  useFlashinferDecode : Bool

namespace DecodeConfig

variable (c : DecodeConfig)

/-- `dummy_gdn_slot`. -/
def dummyGdnSlot : Option ℕ := c.gdnNumSlots.map (· - 1)

/-- A slot outside of the real ones becomes the dummy slot. -/
def clampSlot (dummySlot : ℕ) (s : ℤ) : ℤ := if 0 ≤ s ∧ s < dummySlot then s else dummySlot

/-- `max_blocks` of a ratio, `0` for one without a pool. -/
def maxCompressedBlocks (ratio : ℤ) : ℕ := ((c.compressedPoolConfig ratio).map fun pool => pool.2.2).getD 0

/-- `dummy_pages.get(ratio, num_pages)`. -/
def dummyPage (ratio : ℤ) : ℕ :=
  (c.compressedDummyPages ratio).getD (((c.compressedPoolConfig ratio).map fun pool => pool.1).getD 0)

/-- A row of a compressed table without pages. -/
def dummyRow (ratio : ℤ) : List ℕ := List.replicate (c.maxCompressedBlocks ratio) (c.dummyPage ratio)

/-- One row of the loop over the sequences of a ratio. -/
def compressedRow (ratio : ℤ) (rows : List (List ℕ)) (x : List ℕ × ℤ) : List (List ℕ) :=
  if 0 ≤ x.2 ∧ x.2 < c.maxNumSeqs then
    rows.modify x.2.toNat fun row =>
      let n := min x.1.length (c.maxCompressedBlocks ratio)
      x.1.take n ++ row.drop n
  else rows

/-- `built[ratio]`: a row for every state slot and the dummy row. -/
def compressedRows (ratio : ℤ) (perSeq : List (List ℕ)) (stateSlots : List ℤ) : List (List ℕ) :=
  (perSeq.zip stateSlots).foldl (c.compressedRow ratio) (List.replicate (c.maxNumSeqs + 1) (c.dummyRow ratio))

/-- An entry of `build_ring_slot_mapping_kernel`. -/
def hotSlot (numRealReqs idx : ℕ) (slot : ℤ) (position : ℕ) : ℤ :=
  if numRealReqs ≤ idx ∨ slot < 0 ∨ (c.maxNumSeqs : ℤ) ≤ slot ∨ c.tokensPerSeq = 0 then -1
  else slot * c.tokensPerSeq + (position % c.tokensPerSeq : ℕ)

/-- `build_hot_slot_mapping`. -/
def buildHotSlotMapping (numRealReqs : ℕ) (hisparseSlots : List ℤ) (positions : List ℕ) : Option (List ℤ) :=
  if c.tokensPerSeq = 0 then none
  else some ((hisparseSlots.zip positions).zipIdx.map fun x => c.hotSlot numRealReqs x.2 x.1.1 x.1.2)

end DecodeConfig

/-- What `set_batch_context` is given for a decode. -/
structure DecodeContext where
  slotMapping : List ℤ
  contextLens : List ℕ
  /-- the rows of `block_tables[0]` and their number of columns -/
  blockTables : List (List ℕ)
  maxNumBlocks : ℕ
  gdnStateSlots : Option (List ℤ)
  dsv4StateSlots : Option (List ℤ)
  compressedBlockTables : ℤ → Option (List (List ℕ))
  hisparseSlots : Option (List ℤ)
  hisparseSlotMapping : Option (List ℤ)

namespace DecodeConfig

variable (c : DecodeConfig)

/-- `raw_slots`: a slot for every sequence. -/
def rawHisparseSlots (batch : WireBatch) : List ℤ :=
  let raw := batch.hisparseSlots.take batch.numGroupSeqs
  raw ++ List.replicate (batch.numGroupSeqs - raw.length) (c.maxNumSeqs : ℤ)

/-- `prepare_decode_bytes` with the number of requests that the HiSparse context still holds, and the new one. -/
def prepareDecode (numRealReqs : ℕ) (batch : DecodeBatch) : (List ℤ × List ℕ × DecodeContext) × ℕ :=
  let wire := batch.wire
  let info := runnerInDecode batch.isDummy wire 1 c.blockSize c.maxNumSeqs
  let hisparseSlots := (c.rawHisparseSlots wire).map (clampSlot c.maxNumSeqs)
  let context : DecodeContext :=
    { slotMapping := info.slotMapping
      contextLens := info.contextLensFlat
      blockTables :=
        if info.blockTablesFlat.isEmpty then []
        else Updates.reshape (info.blockTablesFlat.length / info.maxNumBlocks) info.maxNumBlocks info.blockTablesFlat
      maxNumBlocks := if info.blockTablesFlat.isEmpty then 0 else info.maxNumBlocks
      gdnStateSlots := c.dummyGdnSlot.map fun dummySlot => wire.stateSlots.map (clampSlot dummySlot)
      dsv4StateSlots := if c.isDsv4 then some (wire.stateSlots.map (clampSlot c.maxNumSeqs)) else none
      compressedBlockTables := fun ratio =>
        if c.isDsv4 ∧ 0 < c.maxCompressedBlocks ratio then
          (wire.compressedBlockTables ratio).map fun perSeq => c.compressedRows ratio perSeq wire.stateSlots
        else none
      hisparseSlots := if c.enableHisparse then some hisparseSlots else none
      hisparseSlotMapping :=
        if c.enableHisparse then
          if c.planHasGqa then c.buildHotSlotMapping numRealReqs hisparseSlots info.positions else some info.slotMapping
        else none }
  ((info.inputIds, info.positions, context), if c.enableHisparse then wire.numGroupSeqs else numRealReqs)

/-! ## What the context holds -/

section Context

variable {c} {batch : DecodeBatch}

theorem length_decodeSlotMapping (batch : DecodeBatch) (blockSize : ℕ) :
    (batch.wire.decodeSlotMapping batch.isDummy blockSize).length = batch.size := by
  have h := batch.oneToken
  unfold WireBatch.decodeSlotMapping
  split
  case isTrue => rw [List.length_replicate, DecodeBatch.size, h.inputIds]
  case isFalse => rw [List.length_map, List.length_zipIdx, DecodeBatch.size, h.positions, h.inputIds]

theorem contextLens_eq (hsize : batch.size ≤ c.maxNumSeqs) :
    batch.wire.decodeContextLensFlat 1 c.maxNumSeqs =
      (batch.wire.positions.map (· + 1)) ++ List.replicate (c.maxNumSeqs - batch.size) 0 := by
  have h := batch.oneToken
  have hnum : min batch.wire.numGroupSeqs c.maxNumSeqs = batch.wire.positions.length := by
    rw [DecodeBatch.size, h.inputIds] at hsize
    rw [h.positions, Nat.min_eq_left hsize]
  rw [WireBatch.decodeContextLensFlat, hnum, Nat.one_mul, DecodeBatch.size, h.inputIds, h.positions]
  congr 1
  refine List.ext_getElem (by simp [h.positions]) fun i hi hi' => ?_
  have hlt : i < batch.wire.positions.length := by simpa using hi'
  simp [List.getD_eq_getElem?_getD, List.getElem?_eq_getElem hlt]

theorem length_contextLens (hsize : batch.size ≤ c.maxNumSeqs) :
    (batch.wire.decodeContextLensFlat 1 c.maxNumSeqs).length = c.maxNumSeqs := by
  have hpositions : batch.wire.positions.length = batch.size :=
    batch.oneToken.positions.trans batch.oneToken.inputIds.symm
  rw [contextLens_eq hsize, List.length_append, List.length_map, hpositions, List.length_replicate,
    Nat.add_sub_cancel' hsize]

theorem rawHisparseSlots_eq (batch : DecodeBatch) : c.rawHisparseSlots batch.wire = batch.wire.hisparseSlots := by
  have h := batch.oneToken.hisparseSlots
  rw [rawHisparseSlots, ← h, List.take_length, Nat.sub_self, List.replicate_zero, List.append_nil]

theorem foldl_max_le {l : List ℕ} {a w : ℕ} : l.foldl max a ≤ w ↔ a ≤ w ∧ ∀ x ∈ l, x ≤ w := by
  induction l generalizing a with
  | nil => simp
  | cons x l ih =>
    rw [List.foldl_cons, ih, List.forall_mem_cons, Nat.max_le, and_assoc]

theorem decodeMaxBlocks_le {wire : WireBatch} {w : ℕ} :
    wire.decodeMaxBlocks ≤ w ↔ 1 ≤ w ∧ ∀ table ∈ wire.blockTables, table.length ≤ w := by
  rw [WireBatch.decodeMaxBlocks, WireBatch.maxBlocks, Nat.max_le, foldl_max_le]
  simp only [Nat.zero_le, true_and, List.forall_mem_map, and_comm]

/-- The rows of the table tensor: the block tables, padded to one width. -/
theorem blockTables_eq (numRealReqs : ℕ) (hdummy : batch.isDummy = false) (hsize : 0 < batch.size) :
    (c.prepareDecode numRealReqs batch).1.2.2.blockTables =
        (batch.wire.blockTables.map fun table =>
          table ++ List.replicate (batch.wire.decodeMaxBlocks - table.length) 0) ∧
      (c.prepareDecode numRealReqs batch).1.2.2.maxNumBlocks = batch.wire.decodeMaxBlocks := by
  have h := batch.oneToken
  have hpos : 0 < batch.wire.decodeMaxBlocks := Nat.lt_of_lt_of_le Nat.zero_lt_one (Nat.le_max_right ..)
  let f : ℕ → List ℕ := fun seqIdx => batch.wire.blockTables.getD seqIdx [] ++
    List.replicate (batch.wire.decodeMaxBlocks - (batch.wire.blockTables.getD seqIdx []).length) 0
  have hn : max batch.wire.numGroupSeqs 1 = batch.wire.blockTables.length := by
    rw [DecodeBatch.size, h.inputIds] at hsize
    rw [h.blockTables]
    omega
  have hflat : batch.wire.decodeBlockTablesFlat false 1 = (List.range batch.wire.blockTables.length).flatMap f := by
    rw [WireBatch.decodeBlockTablesFlat, if_neg Bool.false_ne_true, hn]
    simp [f]
  have hf : ∀ i ∈ List.range batch.wire.blockTables.length, (f i).length = batch.wire.decodeMaxBlocks := by
    intro i hi
    have hlt : i < batch.wire.blockTables.length := List.mem_range.1 hi
    have hle := (decodeMaxBlocks_le.1 (Nat.le_refl batch.wire.decodeMaxBlocks)).2 _ (List.getElem_mem hlt)
    simp only [f, List.getD_eq_getElem?_getD, List.getElem?_eq_getElem hlt, Option.getD_some, List.length_append,
      List.length_replicate]
    omega
  have hlen : ((List.range batch.wire.blockTables.length).flatMap f).length =
      batch.wire.blockTables.length * batch.wire.decodeMaxBlocks := by
    rw [List.length_flatMap, List.map_congr_left hf]
    simp
  have hne : ((List.range batch.wire.blockTables.length).flatMap f).isEmpty = false := by
    rw [List.isEmpty_eq_false_iff, ← List.length_pos_iff, hlen]
    exact Nat.mul_pos (by rw [h.blockTables, ← h.inputIds]; exact hsize) hpos
  -- the flat tables cut into rows of one width are the padded tables again
  have hreshape := Updates.reshape_flatMap hf
  rw [List.length_range] at hreshape
  simp only [prepareDecode, runnerInDecode, hflat, hne, Bool.false_eq_true, if_false, hdummy, hlen,
    Nat.mul_div_cancel _ hpos, hreshape, and_true]
  refine List.ext_getElem (by simp) fun i hi hi' => ?_
  have hlt : i < batch.wire.blockTables.length := by simpa using hi
  simp [f, List.getD_eq_getElem?_getD, List.getElem?_eq_getElem hlt]

/-- The dummy batch has no table tensor. -/
theorem blockTables_dummy (numRealReqs : ℕ) (hdummy : batch.isDummy = true) :
    (c.prepareDecode numRealReqs batch).1.2.2.blockTables = [] ∧
      (c.prepareDecode numRealReqs batch).1.2.2.maxNumBlocks = 0 := by
  simp [prepareDecode, runnerInDecode, WireBatch.decodeBlockTablesFlat, hdummy]

/-! ### Compressed tables -/

variable {ratio : ℤ}

theorem compressedRow_other {rows : List (List ℕ)} {x : List ℕ × ℤ} {k : ℕ} (hk : x.2 ≠ k) :
    (c.compressedRow ratio rows x)[k]? = rows[k]? := by
  unfold compressedRow
  split
  case isTrue h =>
    have hne : x.2.toNat ≠ k := by omega
    rw [List.getElem?_modify]
    simp [hne]
  case isFalse => rfl

theorem compressedRow_foldl_other {l : List (List ℕ × ℤ)} {k : ℕ} (hk : ∀ x ∈ l, x.2 ≠ k)
    (rows : List (List ℕ)) :
    (l.foldl (c.compressedRow ratio) rows)[k]? = rows[k]? := by
  induction l generalizing rows with
  | nil => rfl
  | cons x l ih =>
    rw [List.forall_mem_cons] at hk
    rw [List.foldl_cons, ih hk.2, compressedRow_other hk.1]

theorem length_compressedRows (perSeq : List (List ℕ)) (stateSlots : List ℤ) :
    (c.compressedRows ratio perSeq stateSlots).length = c.maxNumSeqs + 1 := by
  have hfold : ∀ (l : List (List ℕ × ℤ)) (rows : List (List ℕ)),
      (l.foldl (c.compressedRow ratio) rows).length = rows.length := by
    intro l
    induction l with
    | nil => exact fun _ => rfl
    | cons x l ih =>
      intro rows
      rw [List.foldl_cons, ih, compressedRow]
      split
      case isTrue => exact List.length_modify ..
      case isFalse => rfl
  rw [compressedRows, hfold, List.length_replicate]

/-- The row behind those of the state slots, and that of a slot no sequence has, stay without pages. -/
theorem compressedRows_free (perSeq : List (List ℕ)) {stateSlots : List ℤ} {s : ℕ} (hs : s ≤ c.maxNumSeqs)
    (hfree : s < c.maxNumSeqs → (s : ℤ) ∉ stateSlots) :
    (c.compressedRows ratio perSeq stateSlots)[s]? = some (c.dummyRow ratio) := by
  have hfold : ∀ (l : List (List ℕ × ℤ)) (rows : List (List ℕ)),
    (∀ x ∈ l, x.2 = s → s = c.maxNumSeqs) →
      (l.foldl (c.compressedRow ratio) rows)[s]? = rows[s]? := by
    intro l
    induction l with
    | nil => exact fun _ _ => rfl
    | cons x l ih =>
      intro rows hl
      rw [List.forall_mem_cons] at hl
      rw [List.foldl_cons, ih _ hl.2]
      by_cases hx : x.2 = s
      · have hlast := hl.1 hx
        rw [compressedRow, if_neg (by omega)]
      · exact compressedRow_other hx
  rw [compressedRows, hfold]
  · simp [Nat.lt_succ_of_le hs]
  · intro x hx hxs
    by_contra hlt
    exact hfree (by omega) (hxs ▸ (List.of_mem_zip hx).2)

/-- The row of a state slot that one sequence has: its pages, then dummy pages. -/
theorem compressedRows_slot {perSeq : List (List ℕ)} {stateSlots : List ℤ} {i s : ℕ} {pages : List ℕ}
    (hs : s < c.maxNumSeqs) (hslot : stateSlots[i]? = some (s : ℤ)) (hpages : perSeq[i]? = some pages)
    (honly : ∀ j, stateSlots[j]? = some (s : ℤ) → j = i) :
    (c.compressedRows ratio perSeq stateSlots)[s]? =
      some (pages.take (c.maxCompressedBlocks ratio) ++
        List.replicate (c.maxCompressedBlocks ratio - pages.length) (c.dummyPage ratio)) := by
  have hi : (perSeq.zip stateSlots)[i]? = some (pages, (s : ℤ)) := List.getElem?_zip_eq_some.2 ⟨hpages, hslot⟩
  obtain ⟨hlt, hget⟩ := List.getElem?_eq_some_iff.1 hi
  have hother : ∀ j, j ≠ i → ∀ x, (perSeq.zip stateSlots)[j]? = some x → x.2 ≠ s := by
    intro j hj x hx hxs
    have hslot' := (List.getElem?_zip_eq_some.1 hx).2
    rw [hxs] at hslot'
    exact hj (honly j hslot')
  have hsplit := (List.take_append_drop i (perSeq.zip stateSlots)).symm
  rw [List.drop_eq_getElem_cons hlt, hget] at hsplit
  have hbefore : ∀ x ∈ (perSeq.zip stateSlots).take i, x.2 ≠ s := by
    intro x hx
    obtain ⟨j, hj, rfl⟩ := List.mem_take_iff_getElem.1 hx
    exact hother j (by omega) _ (List.getElem?_eq_getElem _)
  have hafter : ∀ x ∈ (perSeq.zip stateSlots).drop (i + 1), x.2 ≠ s := by
    intro x hx
    obtain ⟨j, hj, rfl⟩ := List.mem_drop_iff_getElem.1 hx
    exact hother (i + 1 + j) (by omega) _ (List.getElem?_eq_getElem _)
  rw [compressedRows, hsplit, List.foldl_append, List.foldl_cons, compressedRow_foldl_other hafter, compressedRow,
    if_pos ⟨Int.natCast_nonneg s, Int.ofNat_lt.2 hs⟩, Int.toNat_natCast, List.getElem?_modify,
    compressedRow_foldl_other hbefore, List.getElem?_replicate, if_pos (by omega)]
  have htake : pages.take (min pages.length (c.maxCompressedBlocks ratio)) =
    pages.take (c.maxCompressedBlocks ratio) := by
    rw [List.take_eq_take_iff]
    omega
  have hdrop : c.maxCompressedBlocks ratio - min pages.length (c.maxCompressedBlocks ratio) =
      c.maxCompressedBlocks ratio - pages.length := by omega
  simp [dummyRow, htake, hdrop]

end Context

end DecodeConfig

end NanoEngine
