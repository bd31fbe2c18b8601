import NanoEngine.Pipeline.Microbatch

/-!
# NanoEngine.Pipeline.Main — pipelined prefill against whole-batch prefill

`_run_static_pp_prefill_pipeline` of `engine/llm_engine.py`.  The workers execute their calls in the order of
submission.  A call writes the KV entries of all its rows; the output of a row is a function of what is packed for it
and of the tokens of its full prefix.  `server_handler_ns` and the transport limit on calls in flight are left out: the
depth is any number.

* `RowModel.run`: one call on one worker.
* `runStaticPipeline`: the rounds, the bounded queue of pending calls and the aggregation.
* `runWholeBatch`: the same batch in one call.
* `runStaticPipeline_eq`: the two agree on every row that has a token, and on all rows if one round is enough.
-/

namespace NanoEngine

open Updates

/-- The token last written for a position of a sequence. -/
abbrev KvCache := ℕ × ℕ → ℤ

/-- `RunnerOut`. -/
structure RunnerOut where
  tokenIds : List (List ℤ)
  logprobs : Option (List (List ℚ))
  deriving DecidableEq

/-- What is returned for row `j`: its tokens and its logprobs. -/
def RunnerOut.row (out : RunnerOut) (j : ℕ) : Option (List ℤ) × Option (List ℚ) :=
  (out.tokenIds[j]?, out.logprobs.bind fun rows => rows[j]?)

/-- A `RunnerOut` with one entry for each of `n` rows. -/
structure RunnerOut.HasRows (out : RunnerOut) (n : ℕ) : Prop where
  tokenIds : out.tokenIds.length = n
  logprobs : ∀ rows, out.logprobs = some rows → rows.length = n

/-- The model: the output row and its logprobs, and what a dummy batch returns. -/
structure RowModel where
  tokens : RowMeta → List ℤ → List ℤ
  logprobs : RowMeta → List ℤ → List ℚ
  dummyTokens : List (List ℤ)

/-- The tokens of the full prefix of a row: the positions up to its last one. -/
def PackedRow.prefixTokens (kv : KvCache) (row : PackedRow) : List ℤ :=
  match row.positions.getLast? with
  | some p => (List.range (p + 1)).map fun q => kv (row.info.seqId, q)
  | none => []

/-- The cache after some writes. -/
def writeAll (writes : List ((ℕ × ℕ) × ℤ)) (kv : KvCache) : KvCache :=
  updateEach Prod.fst (fun x _ => x.2) writes kv

namespace RowModel

def dummyOut (m : RowModel) : RunnerOut := ⟨m.dummyTokens, none⟩

/-- The output of a batch, given the cache after its writes. -/
def batchOut (m : RowModel) (batch : WireBatch) (kv : KvCache) : RunnerOut where
  tokenIds := batch.packedRows.map fun row => m.tokens row.info (row.prefixTokens kv)
  logprobs :=
    if batch.anyReturnCompletionLogprobs then
      some (batch.packedRows.map fun row => m.logprobs row.info (row.prefixTokens kv))
    else none

/-- One call on one worker; `none` is the dummy payload, and an empty batch is replaced by it. -/
def run (m : RowModel) (payload : Option WireBatch) (kv : KvCache) : KvCache × RunnerOut :=
  match payload with
  | some batch =>
    if batch.seqLens.isEmpty then (kv, m.dummyOut)
    else
      let kv' := writeAll (batch.packedRows.flatMap PackedRow.writes) kv
      (kv', m.batchOut batch kv')
  | none => (kv, m.dummyOut)

end RowModel

/-- `run_batch_bytes_async` and `run_wait_runner_outs`: worker `w` executes payload `w`. -/
def runBatch (m : RowModel) (kvs : ℕ → KvCache) (payloads : List (Option WireBatch)) :
    (ℕ → KvCache) × List RunnerOut :=
  (fun w => match payloads[w]? with
    | some payload => (m.run payload (kvs w)).1
    | none => kvs w,
    payloads.zipIdx.map fun x => (m.run x.1 (kvs x.2)).2)

/-- `l[::k]`. -/
def stride {α : Type} (k : ℕ) (l : List α) : List α :=
  (List.range ((l.length + k - 1) / k)).filterMap fun g => l[g * k]?

/-- `all_outs[(pp_size - 1) * inner :][::tp_size]`. -/
def lastStageOuts (inner tpSize ppSize : ℕ) (outs : List RunnerOut) : List RunnerOut :=
  stride tpSize (outs.drop ((ppSize - 1) * inner))

/-- `items * pp_size`. -/
def replicateForPp {α : Type} (ppSize : ℕ) (items : List α) : List α := (List.replicate ppSize items).flatten

/-- The batch in one call. -/
def runWholeBatch (m : RowModel) (kvs : ℕ → KvCache) (batchBytes : List WireBatch) (tpSize ppSize : ℕ) :
    List RunnerOut :=
  lastStageOuts batchBytes.length tpSize ppSize (runBatch m kvs (replicateForPp ppSize (batchBytes.map some))).2

/-- `aggregated_tokens`, `aggregated_logprobs` and `has_logprobs` of one group. -/
structure GroupOut where
  tokens : List (List ℤ)
  logprobs : List (List ℚ)
  hasLogprobs : Bool

/-- The result of a round with the metadata of its cells. -/
abbrev Pending := List RunnerOut × List (Option (List (ℕ × Bool)))

/-- `consume`, for one row of one output. -/
def consumeRow (out : RunnerOut) (agg : GroupOut) (x : (ℕ × Bool) × ℕ) : GroupOut :=
  if !x.1.2 || decide (agg.tokens.length ≤ x.1.1) then agg
  else
    let agg' := match out.tokenIds[x.2]? with
      | some row => { agg with tokens := agg.tokens.set x.1.1 row }
      | none => agg
    match out.logprobs.bind fun rows => rows[x.2]? with
    | some row => { agg' with logprobs := agg'.logprobs.set x.1.1 row, hasLogprobs := true }
    | none => agg'

def consumeGroup (out : RunnerOut) (fragments : List (ℕ × Bool)) (agg : GroupOut) : GroupOut :=
  fragments.zipIdx.foldl (consumeRow out) agg

/-- `consume`. -/
def consume (inner tpSize ppSize : ℕ) (aggs : ℕ → GroupOut) (item : Pending) : ℕ → GroupOut :=
  updateEach Prod.snd (fun x agg => consumeGroup x.1 ((item.2.getD (x.2 * tpSize) none).getD []) agg)
    (lastStageOuts inner tpSize ppSize item.1).zipIdx aggs

structure PipelineState where
  kvs : ℕ → KvCache
  pending : List Pending
  aggs : ℕ → GroupOut

/-- One round of the submission loop: `none` stands for the padding of a cell that has fewer rounds. -/
def submit (m : RowModel) (inner tpSize ppSize depth : ℕ) (st : PipelineState) (round : List (Option Microbatch)) :
    PipelineState :=
  let r := runBatch m st.kvs (replicateForPp ppSize (round.map fun c => c.map Prod.fst))
  let pending := st.pending ++ [(r.2, round.map fun c => c.map Prod.snd)]
  if max 1 depth ≤ pending.length then
    match pending with
    | item :: rest => ⟨r.1, rest, consume inner tpSize ppSize st.aggs item⟩
    | [] => ⟨r.1, [], st.aggs⟩
  else ⟨r.1, pending, st.aggs⟩

/-- `num_rounds`. -/
def numRounds (batchBytes : List WireBatch) (maxTokens : ℕ) : ℕ :=
  (batchBytes.map fun payload => (prefillMicrobatches false payload maxTokens).length).foldr max 0

/-- `rounds`. -/
def pipelineRounds (batchBytes : List WireBatch) (maxTokens : ℕ) : List (List (Option Microbatch)) :=
  (List.range (numRounds batchBytes maxTokens)).map fun k =>
    batchBytes.map fun payload => (prefillMicrobatches false payload maxTokens)[k]?

namespace PipelineState

/-- The state before the first round; `groups` has the number of sequences of every group. -/
def init (kvs : ℕ → KvCache) (groups : List ℕ) : PipelineState where
  kvs := kvs
  pending := []
  aggs := fun g => ⟨List.replicate (groups.getD g 0) [], List.replicate (groups.getD g 0) [], false⟩

/-- What is aggregated once the pending calls are consumed. -/
def drain (inner tpSize ppSize : ℕ) (st : PipelineState) : ℕ → GroupOut :=
  st.pending.foldl (consume inner tpSize ppSize) st.aggs

end PipelineState

/-- The `RunnerOut` of a group. -/
def GroupOut.toRunnerOut (agg : GroupOut) : RunnerOut :=
  ⟨agg.tokens, if agg.hasLogprobs then some agg.logprobs else none⟩

/-- `_run_static_pp_prefill_pipeline`. -/
def runStaticPipeline (m : RowModel) (kvs : ℕ → KvCache) (batchBytes : List WireBatch) (groups : List ℕ)
    (tpSize ppSize depth maxTokens : ℕ) : List RunnerOut :=
  if numRounds batchBytes maxTokens ≤ 1 then runWholeBatch m kvs batchBytes tpSize ppSize
  else
    let st := (pipelineRounds batchBytes maxTokens).foldl (submit m batchBytes.length tpSize ppSize depth)
      (PipelineState.init kvs groups)
    (List.range groups.length).map fun g => (st.drain batchBytes.length tpSize ppSize g).toRunnerOut

/-- The sequences behind the ids of a schedule. -/
structure SeqTable where
  seq : ℕ → Sequence
  seqId_eq : ∀ id, (seq id).seqId = id

/-- The batches of the groups, one for each tensor-parallel rank. -/
def SeqTable.batchBytes (table : SeqTable) (cells : List (List ℕ)) (tpSize : ℕ) : List WireBatch :=
  cells.flatMap fun ids => List.replicate tpSize (sequenceRefsRunnerIn (ids.map table.seq) true)

section Driver

variable {m : RowModel} {inner tpSize ppSize depth : ℕ} {st : PipelineState}

/-- The queue is first in, first out, so that its depth does not matter. -/
theorem drain_submit (round : List (Option Microbatch)) :
    (submit m inner tpSize ppSize depth st round).drain inner tpSize ppSize =
      consume inner tpSize ppSize (st.drain inner tpSize ppSize)
        ((runBatch m st.kvs (replicateForPp ppSize (round.map fun c => c.map Prod.fst))).2,
          round.map fun c => c.map Prod.snd) := by
  unfold submit PipelineState.drain
  dsimp only
  split_ifs
  · cases hpending : st.pending with
    | nil => rfl
    | cons item rest => simp
  · simp

theorem kvs_submit (round : List (Option Microbatch)) :
    (submit m inner tpSize ppSize depth st round).kvs =
      (runBatch m st.kvs (replicateForPp ppSize (round.map fun c => c.map Prod.fst))).1 := by
  unfold submit
  dsimp only
  split_ifs
  · split <;> rfl
  · rfl

theorem getElem?_runBatch (kvs : ℕ → KvCache) (payloads : List (Option WireBatch)) (w : ℕ) :
    (runBatch m kvs payloads).2[w]? = payloads[w]?.map fun payload => (m.run payload (kvs w)).2 := by
  simp [runBatch, List.getElem?_zipIdx, Function.comp_def]

theorem getElem?_stride {α : Type} {k : ℕ} (hk : 0 < k) (l : List α) (g : ℕ) : (stride k l)[g]? = l[g * k]? := by
  have hiff : ∀ j, j < (l.length + k - 1) / k ↔ j * k < l.length := by
    intro j
    rw [Nat.lt_div_iff_mul_lt hk]
    omega
  unfold stride
  by_cases hg : g < (l.length + k - 1) / k
  · refine getElem?_filterMap_range (fun j hj => ?_) hg
    rw [List.getElem?_eq_getElem ((hiff j).1 hj)]
    rfl
  · rw [List.getElem?_eq_none (l := l) (by rw [hiff] at hg; omega), List.getElem?_eq_none]
    refine (List.length_filterMap_le _ _).trans ?_
    rw [List.length_range]
    omega

/-- The worker whose output stands for group `g`: in the last stage, the first of its tensor-parallel ranks. -/
def groupWorker (inner tpSize ppSize g : ℕ) : ℕ := (ppSize - 1) * inner + g * tpSize

theorem getElem?_lastStageOuts (htp : 0 < tpSize) (outs : List RunnerOut) (g : ℕ) :
    (lastStageOuts inner tpSize ppSize outs)[g]? = outs[groupWorker inner tpSize ppSize g]? := by
  rw [lastStageOuts, getElem?_stride htp, List.getElem?_drop, groupWorker]

/-- One call and its consumption, for one cell. -/
def cellStep (m : RowModel) (st : KvCache × GroupOut) (c : Option Microbatch) : KvCache × GroupOut :=
  let r := m.run (c.map Prod.fst) st.1
  (r.1, consumeGroup r.2 ((c.map Prod.snd).getD []) st.2)

theorem consume_of_getElem? {aggs : ℕ → GroupOut} {item : Pending} {g : ℕ} {out : RunnerOut}
    (hout : (lastStageOuts inner tpSize ppSize item.1)[g]? = some out) :
    consume inner tpSize ppSize aggs item g = consumeGroup out ((item.2.getD (g * tpSize) none).getD []) (aggs g) := by
  have hkeys : ((lastStageOuts inner tpSize ppSize item.1).zipIdx.map Prod.snd).Nodup := by
    rw [List.zipIdx_map_snd]
    exact List.nodup_range'
  exact updateEach_of_mem hkeys (List.mk_mem_zipIdx_iff_getElem?.2 hout) aggs

/-- One round, seen from group `g`. -/
theorem submit_group (htp : 0 < tpSize) (hpp : 0 < ppSize) {round : List (Option Microbatch)}
    (hlen : round.length = inner) {g : ℕ} (hg : g * tpSize < inner) :
    ((submit m inner tpSize ppSize depth st round).kvs (groupWorker inner tpSize ppSize g),
        (submit m inner tpSize ppSize depth st round).drain inner tpSize ppSize g) =
      cellStep m (st.kvs (groupWorker inner tpSize ppSize g), st.drain inner tpSize ppSize g)
        (round.getD (g * tpSize) none) := by
  have hpayload : (replicateForPp ppSize (round.map fun c => c.map Prod.fst))[groupWorker inner tpSize ppSize g]? =
      some ((round.getD (g * tpSize) none).map Prod.fst) := by
    have hreplicate := getElem?_flatten_replicate hpp (round.map fun c => c.map Prod.fst) (g * tpSize)
    rw [List.length_map, hlen] at hreplicate
    rw [replicateForPp, groupWorker, hreplicate]
    simp [hlen, hg]
  have hout : (runBatch m st.kvs (replicateForPp ppSize (round.map fun c => c.map Prod.fst))).2[
      groupWorker inner tpSize ppSize g]? =
        some (m.run ((round.getD (g * tpSize) none).map Prod.fst) (st.kvs (groupWorker inner tpSize ppSize g))).2 := by
    rw [getElem?_runBatch, hpayload, Option.map_some]
  rw [drain_submit, kvs_submit, consume_of_getElem? ((getElem?_lastStageOuts htp _ g).trans hout)]
  refine Prod.ext ?_ ?_
  · simp only [runBatch, hpayload, cellStep]
  · simp only [cellStep]
    congr 1
    simp [hlen, hg]

/-- All rounds, seen from group `g`. -/
theorem foldl_submit_group (depth : ℕ) (st : PipelineState) (htp : 0 < tpSize) (hpp : 0 < ppSize) {g : ℕ}
    (hg : g * tpSize < inner)
    {rounds : List (List (Option Microbatch))} (hlen : ∀ round ∈ rounds, round.length = inner) :
    ((rounds.foldl (submit m inner tpSize ppSize depth) st).kvs (groupWorker inner tpSize ppSize g),
        (rounds.foldl (submit m inner tpSize ppSize depth) st).drain inner tpSize ppSize g) =
      (rounds.map fun round => round.getD (g * tpSize) none).foldl (cellStep m)
        (st.kvs (groupWorker inner tpSize ppSize g), st.drain inner tpSize ppSize g) := by
  induction rounds generalizing st with
  | nil => rfl
  | cons round rounds ih =>
    rw [List.foldl_cons, ih _ fun r hr => hlen r (List.mem_cons_of_mem _ hr), List.map_cons, List.foldl_cons,
      submit_group htp hpp (hlen round List.mem_cons_self) hg]

end Driver

/-- Rows of one sequence write the same, and a row writes every position once. -/
structure WireBatch.Consistent (batch : WireBatch) : Prop where
  same : ∀ i < batch.seqLens.length, ∀ j < batch.seqLens.length,
    (batch.rowMeta i).seqId = (batch.rowMeta j).seqId →
    (batch.packedRow i).writes = (batch.packedRow j).writes
  functional : ∀ j < batch.seqLens.length, ∀ k v v', (k, v) ∈ (batch.packedRow j).writes →
    (k, v') ∈ (batch.packedRow j).writes → v = v'

section Cell

variable {m : RowModel} {batch : WireBatch} {kv : KvCache}

/-- The cache after all rows of the batch. -/
def wholeKv (batch : WireBatch) (kv : KvCache) : KvCache := writeAll (batch.packedRows.flatMap PackedRow.writes) kv

/-- What the whole batch returns for row `j`. -/
def wholeTokens (m : RowModel) (batch : WireBatch) (kv : KvCache) (j : ℕ) : List ℤ :=
  m.tokens (batch.rowMeta j) ((batch.packedRow j).prefixTokens (wholeKv batch kv))

def wholeLogprobs (m : RowModel) (batch : WireBatch) (kv : KvCache) (j : ℕ) : List ℚ :=
  m.logprobs (batch.rowMeta j) ((batch.packedRow j).prefixTokens (wholeKv batch kv))

theorem fst_of_mem_writes {row : PackedRow} {k : ℕ × ℕ} {v : ℤ} (h : (k, v) ∈ row.writes) :
    k.1 = row.info.seqId := by
  obtain ⟨x, -, hx⟩ := List.mem_map.1 h
  cases hx
  rfl

theorem mem_packedRows_writes {x : (ℕ × ℕ) × ℤ} : x ∈ batch.packedRows.flatMap PackedRow.writes ↔
    ∃ j < batch.seqLens.length, x ∈ (batch.packedRow j).writes := by
  simp [WireBatch.packedRows]

/-- Every write of the calls is a write of the batch. -/
theorem mem_of_mem_callWrites {calls : List Microbatch} (h : Microbatches batch calls) {x : (ℕ × ℕ) × ℤ}
    (hx : x ∈ callWrites calls) : ∃ j < batch.seqLens.length, x ∈ (batch.packedRow j).writes := by
  obtain ⟨c, hc, hx⟩ := List.mem_flatMap.1 hx
  obtain ⟨row, hrow, hx⟩ := List.mem_flatMap.1 hx
  obtain ⟨i, hi, rfl⟩ := List.mem_iff_getElem.1 hrow
  have hfragment := (List.forall₂_iff_get.1 (h.fragments c hc)).2 i hi
    ((List.forall₂_iff_get.1 (h.fragments c hc)).1 ▸ hi)
  exact ⟨_, hfragment.lt, hfragment.subset x hx⟩

/-- When the last fragment of row `j` is computed, the cache has for its sequence what the whole batch would put there.
-/
theorem writeAll_eq_wholeKv (hbatch : batch.Consistent) {calls pre post : List Microbatch} {c : Microbatch}
    (h : Microbatches batch calls) (hsplit : calls = pre ++ c :: post) {j : ℕ} (hj : (j, true) ∈ c.2)
    (hlt : j < batch.seqLens.length) (p : ℕ) :
    writeAll (callWrites (pre ++ [c])) kv ((batch.rowMeta j).seqId, p) =
      wholeKv batch kv ((batch.rowMeta j).seqId, p) := by
  have hpre : Microbatches batch (pre ++ [c]) := by
    rw [hsplit, ← List.singleton_append, ← List.append_assoc] at h
    exact h.of_append
  -- a write to this sequence is a write of row `j`
  have hrow :
    ∀ v, (∃ i < batch.seqLens.length, (((batch.rowMeta j).seqId, p), v) ∈ (batch.packedRow i).writes) →
      (((batch.rowMeta j).seqId, p), v) ∈ (batch.packedRow j).writes := by
    rintro v ⟨i, hi, hv⟩
    rwa [← hbatch.same i hi j hlt (fst_of_mem_writes hv).symm]
  refine updateEach_snd_congr (fun v => ⟨fun hv => ?_, fun hv => ?_⟩) (fun v v' hv hv' => ?_) kv
  · exact mem_packedRows_writes.2 (mem_of_mem_callWrites hpre hv)
  · exact h.complete pre c post hsplit j hj _ (hrow v (mem_packedRows_writes.1 hv))
  · exact hbatch.functional j hlt _ v v' (hrow v (mem_of_mem_callWrites hpre hv))
      (hrow v' (mem_of_mem_callWrites hpre hv'))

/-- So the last fragment of a row has the output of the row. -/
theorem prefixTokens_eq (kv : KvCache) (hbatch : batch.Consistent) {calls pre post : List Microbatch} {c : Microbatch}
    (h : Microbatches batch calls) (hsplit : calls = pre ++ c :: post) {j : ℕ}
    (hj : (j, true) ∈ c.2) {row : PackedRow} (hrow : batch.FragmentOf row (j, true)) :
    row.info = batch.rowMeta j ∧ row.prefixTokens (writeAll (callWrites (pre ++ [c])) kv) =
      (batch.packedRow j).prefixTokens (wholeKv batch kv) := by
  have hinfo : row.info = batch.rowMeta j := by
    rw [hrow.info]
    simp
  refine ⟨hinfo, ?_⟩
  unfold PackedRow.prefixTokens
  rw [hrow.last rfl, hinfo]
  cases hlast : (batch.packedRow j).positions.getLast? with
  | none => rfl
  | some p => exact List.map_congr_left fun q _ => writeAll_eq_wholeKv hbatch h hsplit hj hrow.lt q

/-- What is aggregated for a cell when the rows of `done` are consumed.  A row without tokens is not touched. -/
structure GroupInv (m : RowModel) (batch : WireBatch) (kv : KvCache) (done : ℕ → Prop) (agg : GroupOut) : Prop where
  tokens_length : agg.tokens.length = batch.seqLens.length
  logprobs_length : agg.logprobs.length = batch.seqLens.length
  tokens : ∀ j, done j → j < batch.seqLens.length → agg.tokens[j]? = some (wholeTokens m batch kv j)
  logprobs : ∀ j, done j → j < batch.seqLens.length → batch.anyReturnCompletionLogprobs = true →
    agg.logprobs[j]? = some (wholeLogprobs m batch kv j) ∧ agg.hasLogprobs = true
  noLogprobs : batch.anyReturnCompletionLogprobs = false → agg.hasLogprobs = false
  untouched : ∀ j < batch.seqLens.length, batch.seqLen j = 0 →
    agg.tokens[j]? = some [] ∧ agg.logprobs[j]? = some []

/-- One row of an output, when it is the output of the original row. -/
theorem GroupInv.consumeRow {done : ℕ → Prop} {agg : GroupOut} (h : GroupInv m batch kv done agg) {out : RunnerOut}
    {x : (ℕ × Bool) × ℕ} (hlt : x.1.1 < batch.seqLens.length) (hpos : 0 < batch.seqLen x.1.1)
    (htokens : x.1.2 = true → out.tokenIds[x.2]? = some (wholeTokens m batch kv x.1.1))
    (hlogprobs : x.1.2 = true → (out.logprobs.bind fun rows => rows[x.2]?) =
      if batch.anyReturnCompletionLogprobs then some (wholeLogprobs m batch kv x.1.1) else none) :
    GroupInv m batch kv (fun j => done j ∨ x.1 = (j, true)) (NanoEngine.consumeRow out agg x) := by
  obtain ⟨⟨i, last⟩, r⟩ := x
  have hlen := h.tokens_length
  dsimp only at hlt hpos htokens hlogprobs
  cases last with
  | false =>
    refine ⟨h.tokens_length, h.logprobs_length, fun j hj hjlt => ?_, fun j hj hjlt hflag => ?_, h.noLogprobs,
      h.untouched⟩
    · exact h.tokens j (hj.resolve_right (by simp)) hjlt
    · exact h.logprobs j (hj.resolve_right (by simp)) hjlt hflag
  | true =>
    have hin : ¬ agg.tokens.length ≤ i := by omega
    have hset : ∀ {α : Type} {l : List α} {v : α} {w : ℕ → α}, l.length = batch.seqLens.length → v = w i →
        (∀ j, done j → j < batch.seqLens.length → l[j]? = some (w j)) →
        ∀ j, done j ∨ (i, true) = (j, true) → j < batch.seqLens.length → (l.set i v)[j]? = some (w j) := by
      intro α l v w hl hv hold j hj hjlt
      by_cases hij : i = j
      · subst hij
        rw [List.getElem?_set_self (by omega), hv]
      · rw [List.getElem?_set_ne hij]
        exact hold j (hj.resolve_right fun heq => hij (congrArg Prod.fst heq)) hjlt
    -- the row that is set has tokens, so it is none of the rows without
    have hother : ∀ {α : Type} (l : List α) (v : α) {j : ℕ}, batch.seqLen j = 0 → (l.set i v)[j]? = l[j]? := by
      intro α l v j hj
      exact List.getElem?_set_ne fun hij => by rw [hij] at hpos; omega
    unfold NanoEngine.consumeRow
    simp only [Bool.not_true, Bool.false_or, decide_eq_true_eq, if_neg hin, htokens rfl, hlogprobs rfl]
    cases hflag : batch.anyReturnCompletionLogprobs with
    | false =>
      simp only [Bool.false_eq_true, if_false]
      refine ⟨by simpa using hlen, h.logprobs_length, hset hlen rfl h.tokens, fun j _ _ htrue => ?_, h.noLogprobs,
        fun j hj hzero => ?_⟩
      · rw [hflag] at htrue
        cases htrue
      · rw [hother _ _ hzero]
        exact h.untouched j hj hzero
    | true =>
      simp only [if_true]
      refine ⟨by simpa using hlen, by simpa using h.logprobs_length, hset hlen rfl h.tokens, fun j hj hjlt _ => ?_,
        fun hfalse => ?_, fun j hj hzero => ?_⟩
      · exact ⟨hset h.logprobs_length rfl (fun j hj hjlt => (h.logprobs j hj hjlt hflag).1) j hj hjlt, rfl⟩
      · rw [hflag] at hfalse
        cases hfalse
      · rw [hother _ _ hzero, hother _ _ hzero]
        exact h.untouched j hj hzero

theorem GroupInv.mono {done done' : ℕ → Prop} {agg : GroupOut} (h : GroupInv m batch kv done agg)
    (hdone : ∀ j, done' j → done j) : GroupInv m batch kv done' agg where
  tokens_length := h.tokens_length
  logprobs_length := h.logprobs_length
  tokens := fun j hj => h.tokens j (hdone j hj)
  logprobs := fun j hj => h.logprobs j (hdone j hj)
  noLogprobs := h.noLogprobs
  untouched := h.untouched

/-- All rows of an output. -/
theorem GroupInv.foldl_consumeRow {l : List ((ℕ × Bool) × ℕ)} {done : ℕ → Prop} {agg : GroupOut}
    (h : GroupInv m batch kv done agg) (out : RunnerOut)
    (hl : ∀ x ∈ l, x.1.1 < batch.seqLens.length ∧ 0 < batch.seqLen x.1.1 ∧
      (x.1.2 = true → out.tokenIds[x.2]? = some (wholeTokens m batch kv x.1.1)) ∧
      (x.1.2 = true → (out.logprobs.bind fun rows => rows[x.2]?) =
        if batch.anyReturnCompletionLogprobs then some (wholeLogprobs m batch kv x.1.1) else none)) :
    GroupInv m batch kv (fun j => done j ∨ (j, true) ∈ l.map Prod.fst)
      (l.foldl (NanoEngine.consumeRow out) agg) := by
  induction l generalizing done agg with
  | nil => exact h.mono fun j hj => hj.resolve_right List.not_mem_nil
  | cons x l ih =>
    obtain ⟨hlt, hpos, htokens, hlogprobs⟩ := hl x List.mem_cons_self
    have hrest := ih (h.consumeRow hlt hpos htokens hlogprobs) fun y hy => hl y (List.mem_cons_of_mem x hy)
    refine hrest.mono fun j hj => ?_
    rw [List.map_cons, List.mem_cons, eq_comm (b := x.1)] at hj
    tauto

/-- The output of a call, row by row: a last fragment has the output of its row. -/
theorem batchOut_row (hbatch : batch.Consistent) {calls pre post : List Microbatch} {c : Microbatch}
    (hcalls : Microbatches batch calls) (hsplit : calls = pre ++ c :: post) {x : (ℕ × Bool) × ℕ}
    (hx : x ∈ c.2.zipIdx) :
    x.1.1 < batch.seqLens.length ∧ 0 < batch.seqLen x.1.1 ∧
      (x.1.2 = true → (m.batchOut c.1 (writeAll (callWrites (pre ++ [c])) kv)).tokenIds[x.2]? =
        some (wholeTokens m batch kv x.1.1)) ∧
      (x.1.2 = true → ((m.batchOut c.1 (writeAll (callWrites (pre ++ [c])) kv)).logprobs.bind fun rows =>
        rows[x.2]?) =
        if batch.anyReturnCompletionLogprobs then some (wholeLogprobs m batch kv x.1.1) else none) := by
  have hc : c ∈ calls := hsplit ▸ List.mem_append_right _ List.mem_cons_self
  obtain ⟨hlen, hfragments⟩ := List.forall₂_iff_get.1 (hcalls.fragments c hc)
  obtain ⟨⟨j, last⟩, i⟩ := x
  obtain ⟨hi, hmeta⟩ := List.getElem?_eq_some_iff.1 (List.mk_mem_zipIdx_iff_getElem?.1 hx)
  have hirow : i < c.1.packedRows.length := hlen ▸ hi
  have hrow := hfragments i hirow hi
  rw [List.get_eq_getElem, List.get_eq_getElem, hmeta] at hrow
  have hj : (j, last) ∈ c.2 := hmeta ▸ List.getElem_mem hi
  refine ⟨hrow.lt, hrow.pos, fun hlast => ?_, fun hlast => ?_⟩
  · obtain rfl : last = true := hlast
    obtain ⟨hinfo, htokens⟩ := prefixTokens_eq kv hbatch hcalls hsplit hj hrow
    simp [RowModel.batchOut, wholeTokens, hirow, hinfo, htokens]
  · obtain rfl : last = true := hlast
    obtain ⟨hinfo, htokens⟩ := prefixTokens_eq kv hbatch hcalls hsplit hj hrow
    cases hflag : batch.anyReturnCompletionLogprobs <;>
      simp [RowModel.batchOut, wholeLogprobs, hirow, hinfo, htokens, hcalls.logprobs c hc, hflag]

/-- The calls of a cell, from any point of the sequence on. -/
theorem GroupInv.foldl_cellStep (hbatch : batch.Consistent) {calls : List Microbatch}
    (hcalls : Microbatches batch calls) :
    ∀ (post pre : List Microbatch) (agg : GroupOut), calls = pre ++ post →
      GroupInv m batch kv (fun j => ∃ c ∈ pre, (j, true) ∈ c.2) agg →
      ∃ agg', (post.map some).foldl (cellStep m) (writeAll (callWrites pre) kv, agg) =
          (writeAll (callWrites calls) kv, agg') ∧
        GroupInv m batch kv (fun j => ∃ c ∈ calls, (j, true) ∈ c.2) agg' := by
  intro post
  induction post with
  | nil =>
    rintro pre agg hsplit h
    rw [List.append_nil] at hsplit
    exact ⟨agg, by rw [hsplit]; rfl, hsplit ▸ h⟩
  | cons c post ih =>
    rintro pre agg hsplit h
    have hc : c ∈ calls := hsplit ▸ List.mem_append_right _ List.mem_cons_self
    have hfragments := List.forall₂_iff_get.1 (hcalls.fragments c hc)
    have hkv : writeAll (c.1.packedRows.flatMap PackedRow.writes) (writeAll (callWrites pre) kv) =
        writeAll (callWrites (pre ++ [c])) kv := by
      rw [callWrites_append, writeAll, writeAll, writeAll, updateEach_append]
      simp [callWrites]
    -- the call and its consumption
    have hstep : ∃ agg', cellStep m (writeAll (callWrites pre) kv, agg) (some c) =
          (writeAll (callWrites (pre ++ [c])) kv, agg') ∧
        GroupInv m batch kv (fun j => ∃ d ∈ pre ++ [c], (j, true) ∈ d.2) agg' := by
      by_cases hempty : c.1.seqLens = []
      · -- a microbatch without rows
        have hrows : c.1.packedRows = [] := by simp [WireBatch.packedRows, hempty]
        have hmeta : c.2 = [] := List.eq_nil_of_length_eq_zero (by rw [← hfragments.1, hrows]; rfl)
        refine ⟨agg, ?_, h.mono ?_⟩
        · rw [← hkv, hrows]
          simp only [cellStep, RowModel.run, Option.map_some, hempty, hmeta, List.isEmpty_nil, if_true]
          rfl
        · rintro j ⟨d, hd, hj⟩
          rcases List.mem_append.1 hd with hd | hd
          · exact ⟨d, hd, hj⟩
          · rw [List.mem_singleton.1 hd, hmeta] at hj
            cases hj
      · refine ⟨_, ?_, (h.foldl_consumeRow (l := c.2.zipIdx) (m.batchOut c.1 (writeAll (callWrites (pre ++ [c])) kv))
          fun x hx => ?_).mono ?_⟩
        · simp only [cellStep, RowModel.run, Option.map_some, List.isEmpty_iff, hempty, if_false, hkv]
          rfl
        · exact batchOut_row hbatch hcalls hsplit hx
        · rintro j ⟨d, hd, hj⟩
          rcases List.mem_append.1 hd with hd | hd
          · exact Or.inl ⟨d, hd, hj⟩
          · rw [List.mem_singleton.1 hd] at hj
            rw [List.zipIdx_map_fst]
            exact Or.inr hj
    obtain ⟨agg', hagg', hinv⟩ := hstep
    rw [List.map_cons, List.foldl_cons, hagg']
    exact ih (pre ++ [c]) agg' (by rw [hsplit]; simp) hinv

theorem map_getElem?_range {α : Type} {l : List α} {n : ℕ} (hn : l.length ≤ n) :
    (List.range n).map (fun k => l[k]?) = l.map some ++ List.replicate (n - l.length) none := by
  refine List.ext_getElem? fun k => ?_
  rw [List.getElem?_map]
  by_cases hk : k < n
  · rw [List.getElem?_range hk, Option.map_some]
    by_cases hl : k < l.length
    · rw [List.getElem?_append_left (by simpa using hl)]
      simp [hl]
    · rw [List.getElem?_append_right (by simpa using hl), List.getElem?_replicate, if_pos (by simp; omega),
        List.getElem?_eq_none (by omega)]
  · rw [List.getElem?_eq_none (by simpa using hk), List.getElem?_eq_none (by simp; omega)]
    rfl

/-- Padding rounds change nothing. -/
theorem foldl_cellStep_none (n : ℕ) (st : KvCache × GroupOut) :
    (List.replicate n none).foldl (cellStep m) st = st := by
  induction n with
  | zero => rfl
  | succ n ih => exact ih

/-- All rounds of a cell give, for every row with tokens, the row of the whole batch. -/
theorem GroupInv.rounds (kv : KvCache) (hbatch : batch.Consistent) (hprefill : batch.isPrefill = true)
    (hwf : batch.WellFormed) {maxTokens numRounds : ℕ} (hmax : 0 < maxTokens)
    (hrounds : (prefillMicrobatches false batch maxTokens).length ≤ numRounds) :
    GroupInv m batch kv (fun j => 0 < batch.seqLen j)
      (((List.range numRounds).map fun k => (prefillMicrobatches false batch maxTokens)[k]?).foldl (cellStep m)
        (kv, ⟨List.replicate batch.seqLens.length [], List.replicate batch.seqLens.length [], false⟩)).2 := by
  have hinit : ∀ done : ℕ → Prop, (∀ j < batch.seqLens.length, ¬ done j) → GroupInv m batch kv done
      ⟨List.replicate batch.seqLens.length [], List.replicate batch.seqLens.length [], false⟩ := by
    intro done hdone
    exact ⟨by simp, by simp, fun j hj hlt => absurd hj (hdone j hlt), fun j hj hlt => absurd hj (hdone j hlt),
      fun _ => rfl, fun j hj _ => by simp [hj]⟩
  rw [map_getElem?_range hrounds, List.foldl_append, foldl_cellStep_none]
  rcases microbatches_prefillMicrobatches hprefill hmax hwf with ⟨hsingle, hzero⟩ | ⟨hcalls, hended⟩
  · -- no row has tokens: one call, and nothing is consumed from it
    rw [hsingle]
    exact hinit _ fun j hj => by simp [hzero j hj]
  · obtain ⟨agg, hagg, hinv⟩ := GroupInv.foldl_cellStep hbatch hcalls
      (prefillMicrobatches false batch maxTokens) []
      _ rfl (hinit _ (by simp))
    rw [show writeAll (callWrites []) kv = kv from rfl] at hagg
    rw [hagg]
    exact ⟨hinv.tokens_length, hinv.logprobs_length, fun j hpos hj => hinv.tokens j (hended j hj hpos) hj,
      fun j hpos hj => hinv.logprobs j (hended j hj hpos) hj, hinv.noLogprobs, hinv.untouched⟩

/-- The aggregated row is the row of the whole batch, if the row has tokens. -/
theorem GroupInv.row_eq {agg : GroupOut} (h : GroupInv m batch kv (fun j => 0 < batch.seqLen j) agg) {j : ℕ}
    (hj : j < batch.seqLens.length) (hpos : 0 < batch.seqLen j) :
    agg.toRunnerOut.row j = (m.batchOut batch (wholeKv batch kv)).row j := by
  have hrow : batch.packedRows[j]? = some (batch.packedRow j) := by simp [WireBatch.packedRows, hj]
  unfold RunnerOut.row
  refine Prod.ext ?_ ?_
  · simp only [GroupOut.toRunnerOut, RowModel.batchOut, h.tokens j hpos hj, List.getElem?_map, hrow]
    rfl
  · cases hflag : batch.anyReturnCompletionLogprobs with
    | false => simp [GroupOut.toRunnerOut, RowModel.batchOut, hflag, h.noLogprobs hflag]
    | true =>
      obtain ⟨hlogprobs, hhas⟩ := h.logprobs j hpos hj hflag
      simp only [GroupOut.toRunnerOut, RowModel.batchOut, hflag, hhas, if_true, Option.bind_some, hlogprobs,
        List.getElem?_map, hrow]
      rfl

/-- A row without tokens stays as it was before the first round. -/
theorem GroupInv.row_untouched {agg : GroupOut} {done : ℕ → Prop} (h : GroupInv m batch kv done agg) {j : ℕ}
    (hj : j < batch.seqLens.length) (hzero : batch.seqLen j = 0) :
    (agg.toRunnerOut.row j).1 = some [] ∧ (agg.toRunnerOut.row j).2.getD [] = [] := by
  obtain ⟨htokens, hlogprobs⟩ := h.untouched j hj hzero
  refine ⟨htokens, ?_⟩
  cases hhas : agg.hasLogprobs <;> simp [GroupOut.toRunnerOut, RunnerOut.row, hhas, hlogprobs]

theorem GroupInv.hasRows {agg : GroupOut} {done : ℕ → Prop} (h : GroupInv m batch kv done agg) :
    agg.toRunnerOut.HasRows batch.seqLens.length := by
  refine ⟨h.tokens_length, fun rows hrows => ?_⟩
  cases hhas : agg.hasLogprobs with
  | false => simp [GroupOut.toRunnerOut, hhas] at hrows
  | true =>
    simp only [GroupOut.toRunnerOut, hhas, if_true, Option.some.injEq] at hrows
    rw [← hrows, h.logprobs_length]

theorem RowModel.hasRows_batchOut (m : RowModel) (batch : WireBatch) (kv : KvCache) :
    (m.batchOut batch kv).HasRows batch.seqLens.length := by
  refine ⟨by simp [RowModel.batchOut, WireBatch.packedRows], fun rows hrows => ?_⟩
  simp only [RowModel.batchOut] at hrows
  split_ifs at hrows
  rw [← Option.some.inj hrows, List.length_map]
  simp [WireBatch.packedRows]

end Cell

section Batch

/-- The runner's view of a row, as far as `WireRow` has it. -/
def PackedRow.toWireRow (row : PackedRow) : WireRow :=
  ⟨row.info.seqId, row.inputIds, row.positions, row.info.sample⟩

theorem getElem?_cut {α : Type} (lens : List ℕ) (l : List α) {i : ℕ} (hi : i < lens.length) :
    (WireBatch.cut lens l)[i]? = some ((l.drop ((lens.take i).foldr (· + ·) 0)).take (lens.getD i 0)) := by
  induction lens generalizing l i with
  | nil => simp at hi
  | cons n lens ih =>
    cases i with
    | zero => simp [WireBatch.cut]
    | succ i =>
      rw [WireBatch.cut, List.getElem?_cons_succ, ih _ (by simpa using hi), List.drop_drop, List.take_succ_cons,
        List.foldr_cons, List.getD_cons_succ]

theorem getElem?_zip_of {α β : Type} {l : List α} {l' : List β} {i : ℕ} {a : α} {b : β} (ha : l[i]? = some a)
    (hb : l'[i]? = some b) : (l.zip l')[i]? = some (a, b) :=
  List.getElem?_zip_eq_some.2 ⟨ha, hb⟩

theorem rows_eq_packedRows {batch : WireBatch} (hwf : batch.WellFormed) :
    batch.rows = batch.packedRows.map PackedRow.toWireRow := by
  have hlen : batch.rows.length = batch.seqLens.length := by
    simp [WireBatch.rows, WireBatch.length_cut, hwf.seqIds, hwf.sampleMask]
  refine List.ext_getElem? fun i => ?_
  by_cases hi : i < batch.seqLens.length
  · have hid : batch.seqIds[i]? = some (batch.seqIds.getD i 0) := by simp [hwf.seqIds, hi]
    have hmask : batch.sampleMask[i]? = some (batch.sampleMask.getD i true) := by simp [hwf.sampleMask, hi]
    have hrow := getElem?_zip_of hid (getElem?_zip_of hmask (getElem?_zip_of
      (getElem?_cut batch.seqLens batch.inputIds hi) (getElem?_cut batch.seqLens batch.positions hi)))
    rw [WireBatch.rows, List.getElem?_map, hrow, WireBatch.packedRows, List.map_map, List.getElem?_map,
      List.getElem?_range hi]
    rfl
  · rw [List.getElem?_eq_none (by omega), List.getElem?_eq_none (by simpa [WireBatch.packedRows] using hi)]

theorem isPrefill_sequenceRefsRunnerIn (seqs : List Sequence) (isPrefill : Bool) :
    (sequenceRefsRunnerIn seqs isPrefill).isPrefill = isPrefill := by
  have hfold : ∀ (seqs : List Sequence) (batch : WireBatch),
      (seqs.foldl WireBatch.push batch).isPrefill = batch.isPrefill := by
    intro seqs
    induction seqs with
    | nil => exact fun batch => rfl
    | cons item seqs ih => exact fun batch => ih _
  exact hfold seqs _

variable (seqs : List Sequence)

theorem map_packedRows_sequenceRefsRunnerIn :
    (sequenceRefsRunnerIn seqs true).packedRows.map PackedRow.toWireRow = seqs.map (·.packed true) := by
  rw [← rows_eq_packedRows (wellFormed_sequenceRefsRunnerIn seqs true), rows_sequenceRefsRunnerIn]

theorem length_seqLens_sequenceRefsRunnerIn : (sequenceRefsRunnerIn seqs true).seqLens.length = seqs.length := by
  simpa [WireBatch.packedRows] using congrArg List.length (map_packedRows_sequenceRefsRunnerIn seqs)

/-- Row `j` is the slice of sequence `j`. -/
theorem toWireRow_packedRow {j : ℕ} (hj : j < seqs.length) :
    ((sequenceRefsRunnerIn seqs true).packedRow j).toWireRow = (seqs[j]).packed true := by
  have h := congrArg (fun l : List WireRow => l[j]?) (map_packedRows_sequenceRefsRunnerIn seqs)
  simpa [WireBatch.packedRows, length_seqLens_sequenceRefsRunnerIn, hj] using h

theorem seqLen_sequenceRefsRunnerIn {j : ℕ} (hj : j < seqs.length) :
    (sequenceRefsRunnerIn seqs true).seqLen j = ((seqs[j]).packed true).inputIds.length := by
  have hwf := wellFormed_sequenceRefsRunnerIn seqs true
  have hlt : j < (sequenceRefsRunnerIn seqs true).seqLens.length := by rwa [length_seqLens_sequenceRefsRunnerIn]
  have hend := WireBatch.rowOffset_le (sequenceRefsRunnerIn seqs true) (j + 1)
  rw [WireBatch.rowOffset_add_seqLen _ hlt, ← hwf.inputIds] at hend
  rw [← toWireRow_packedRow seqs hj]
  simp only [PackedRow.toWireRow, WireBatch.packedRow, List.length_take, List.length_drop]
  omega

theorem PackedRow.writes_eq (row : PackedRow) :
    row.writes = (row.toWireRow.positions.zip row.toWireRow.inputIds).map fun x => ((row.toWireRow.seqId, x.1), x.2) :=
  rfl

theorem SeqTable.consistent (table : SeqTable) (ids : List ℕ) :
    (sequenceRefsRunnerIn (ids.map table.seq) true).Consistent := by
  have hlen := length_seqLens_sequenceRefsRunnerIn (ids.map table.seq)
  rw [List.length_map] at hlen
  have hrow : ∀ j < ids.length,
      ((sequenceRefsRunnerIn (ids.map table.seq) true).packedRow j).toWireRow =
        (table.seq (ids.getD j 0)).packed true := by
    intro j hj
    rw [toWireRow_packedRow _ (by simpa using hj), List.getElem_map, List.getD_eq_getElem _ _ hj]
  rw [← hlen] at hrow
  refine ⟨fun i hi j hj hij => ?_, fun j hj k v v' hv hv' => ?_⟩
  · -- the sequence determines the row
    have hseqId : ∀ j < (sequenceRefsRunnerIn (ids.map table.seq) true).seqLens.length,
        ((sequenceRefsRunnerIn (ids.map table.seq) true).rowMeta j).seqId = ids.getD j 0 := by
      intro j hj
      have h := congrArg WireRow.seqId (hrow j hj)
      rwa [Sequence.packed_seqId, table.seqId_eq] at h
    rw [hseqId i hi, hseqId j hj] at hij
    rw [PackedRow.writes_eq, PackedRow.writes_eq, hrow i hi, hrow j hj, hij]
  · -- positions of a slice are distinct
    rw [PackedRow.writes_eq, hrow j hj] at hv hv'
    obtain ⟨x, hx, hxk⟩ := List.mem_map.1 hv
    obtain ⟨y, hy, hyk⟩ := List.mem_map.1 hv'
    obtain ⟨rfl, rfl⟩ := Prod.ext_iff.1 hxk
    obtain ⟨hkey, rfl⟩ := Prod.ext_iff.1 hyk
    have hnodup : ((((table.seq (ids.getD j 0)).packed true).positions.zip
        ((table.seq (ids.getD j 0)).packed true).inputIds).map Prod.fst).Nodup := by
      rw [List.map_fst_zip (Sequence.length_packed _ true).le]
      exact List.nodup_range'
    have hxy : x = y := List.inj_on_of_nodup_map hnodup hx hy (congrArg Prod.snd hkey).symm
    rw [hxy]

end Batch

section Main

variable {m : RowModel} {kvs : ℕ → KvCache} {table : SeqTable} {cells : List (List ℕ)} {tpSize ppSize depth : ℕ}

theorem getElem?_batchBytes (table : SeqTable) (cells : List (List ℕ)) (htp : 0 < tpSize) (g : ℕ) :
    (table.batchBytes cells tpSize)[g * tpSize]? =
      cells[g]?.map fun ids => sequenceRefsRunnerIn (ids.map table.seq) true := by
  rw [SeqTable.batchBytes, getElem?_flatMap_mul (fun _ _ => List.length_replicate) htp]
  cases cells[g]? with
  | none => rfl
  | some ids => simp [htp]

/-- The whole batch, seen from group `g`. -/
theorem getElem?_runWholeBatch (m : RowModel) (kvs : ℕ → KvCache) (table : SeqTable) (cells : List (List ℕ))
    (htp : 0 < tpSize) (hpp : 0 < ppSize) (g : ℕ) :
    (runWholeBatch m kvs (table.batchBytes cells tpSize) tpSize ppSize)[g]? = cells[g]?.map fun ids =>
      (m.run (some (sequenceRefsRunnerIn (ids.map table.seq) true))
        (kvs (groupWorker (table.batchBytes cells tpSize).length tpSize ppSize g))).2 := by
  have hreplicate := getElem?_flatten_replicate hpp ((table.batchBytes cells tpSize).map some) (g * tpSize)
  rw [List.length_map] at hreplicate
  rw [runWholeBatch, getElem?_lastStageOuts htp, getElem?_runBatch, replicateForPp, groupWorker, hreplicate,
    List.getElem?_map, getElem?_batchBytes table cells htp]
  cases cells[g]? <;> rfl

theorem le_numRounds {batchBytes : List WireBatch} {maxTokens : ℕ} {batch : WireBatch} (h : batch ∈ batchBytes) :
    (prefillMicrobatches false batch maxTokens).length ≤ numRounds batchBytes maxTokens := by
  unfold numRounds
  induction batchBytes with
  | nil => cases h
  | cons b bs ih =>
    simp only [List.map_cons, List.foldr_cons]
    rcases List.mem_cons.1 h with rfl | h
    · exact le_max_left _ _
    · exact (ih h).trans (le_max_right _ _)

theorem numRounds_zero (batchBytes : List WireBatch) : numRounds batchBytes 0 ≤ 1 := by
  unfold numRounds
  induction batchBytes with
  | nil => simp
  | cons b bs ih =>
    simp only [List.map_cons, List.foldr_cons]
    exact max_le (by simp [prefillMicrobatches]) ih

/-- The pipeline, seen from group `g`: its rounds one after another. -/
theorem getElem?_runStaticPipeline (m : RowModel) (kvs : ℕ → KvCache) (depth : ℕ) (htp : 0 < tpSize)
    (hpp : 0 < ppSize) {maxTokens : ℕ}
    (hrounds : ¬ numRounds (table.batchBytes cells tpSize) maxTokens ≤ 1) {g : ℕ} {ids : List ℕ}
    (hg : cells[g]? = some ids) :
    (runStaticPipeline m kvs (table.batchBytes cells tpSize) (cells.map List.length) tpSize ppSize
      depth maxTokens)[g]? =
      some (((List.range (numRounds (table.batchBytes cells tpSize) maxTokens)).map fun k =>
        (prefillMicrobatches false (sequenceRefsRunnerIn (ids.map table.seq) true) maxTokens)[k]?).foldl (cellStep m)
          (kvs (groupWorker (table.batchBytes cells tpSize).length tpSize ppSize g),
            ⟨List.replicate ids.length [], List.replicate ids.length [], false⟩)).2.toRunnerOut := by
  have hpayload := getElem?_batchBytes table cells htp g
  rw [hg, Option.map_some] at hpayload
  have hlt : g * tpSize < (table.batchBytes cells tpSize).length := (List.getElem?_eq_some_iff.1 hpayload).1
  have hglt : g < (cells.map List.length).length := by
    rw [List.length_map]
    exact (List.getElem?_eq_some_iff.1 hg).1
  have hlen : ∀ round ∈ pipelineRounds (table.batchBytes cells tpSize) maxTokens,
      round.length = (table.batchBytes cells tpSize).length := by
    intro round hround
    obtain ⟨k, -, rfl⟩ := List.mem_map.1 hround
    exact List.length_map _
  -- group `g` receives its own payload in every round
  have hcell : (pipelineRounds (table.batchBytes cells tpSize) maxTokens).map (fun round =>
    round.getD (g * tpSize) none) =
      (List.range (numRounds (table.batchBytes cells tpSize) maxTokens)).map fun k =>
        (prefillMicrobatches false (sequenceRefsRunnerIn (ids.map table.seq) true) maxTokens)[k]? := by
    rw [pipelineRounds, List.map_map]
    refine List.map_congr_left fun k _ => ?_
    rw [Function.comp_apply, List.getD_eq_getElem?_getD, List.getElem?_map, hpayload]
    rfl
  have hinit : (PipelineState.init kvs (cells.map List.length)).drain
      (table.batchBytes cells tpSize).length tpSize ppSize g =
      ⟨List.replicate ids.length [], List.replicate ids.length [], false⟩ := by
    simp [PipelineState.init, PipelineState.drain, hg]
  have hfold := foldl_submit_group (m := m) depth (PipelineState.init kvs (cells.map List.length)) htp hpp hlt hlen
  rw [hcell, hinit] at hfold
  unfold runStaticPipeline
  rw [if_neg hrounds]
  dsimp only
  rw [List.getElem?_map, List.getElem?_range hglt, Option.map_some]
  exact congrArg (fun x : KvCache × GroupOut => some x.2.toRunnerOut) hfold

/-- **Pipelined prefill is whole-batch prefill, row by row**: every group has one row for each of its sequences, the row
of one call if the sequence has tokens or the batch needs no second round.  In several rounds a row without tokens is
empty. -/
theorem runStaticPipeline_eq (htp : 0 < tpSize) (hpp : 0 < ppSize) {maxTokens g : ℕ} {ids : List ℕ}
    (hg : cells[g]? = some ids) :
    ∃ out whole,
      (runStaticPipeline m kvs (table.batchBytes cells tpSize) (cells.map List.length) tpSize ppSize depth
          maxTokens)[g]? = some out ∧
        (runWholeBatch m kvs (table.batchBytes cells tpSize) tpSize ppSize)[g]? = some whole ∧
        (ids ≠ [] → out.HasRows ids.length ∧ whole.HasRows ids.length) ∧
        ∀ j id, ids[j]? = some id →
          if numRounds (table.batchBytes cells tpSize) maxTokens ≤ 1 ∨
            ((table.seq id).packed true).inputIds ≠ [] then
            out.row j = whole.row j
          else (out.row j).1 = some [] ∧ (out.row j).2.getD [] = [] := by
  have hwhole := getElem?_runWholeBatch m kvs table cells htp hpp g
  rw [hg, Option.map_some] at hwhole
  set batch := sequenceRefsRunnerIn (ids.map table.seq) true with hbatch
  set kv := kvs (groupWorker (table.batchBytes cells tpSize).length tpSize ppSize g) with hkv
  have hlen : batch.seqLens.length = ids.length := by
    rw [hbatch, length_seqLens_sequenceRefsRunnerIn, List.length_map]
  -- one call for a group with sequences
  have hrun : ids ≠ [] → (m.run (some batch) kv).2 = m.batchOut batch (wholeKv batch kv) := by
    intro hne
    have hseqLens : batch.seqLens.isEmpty = false := by
      rw [List.isEmpty_eq_false_iff, ← List.length_pos_iff, hlen]
      exact List.length_pos_iff.2 hne
    simp only [RowModel.run, hseqLens, Bool.false_eq_true, if_false]
    rfl
  have hwholeRows : ids ≠ [] → (m.run (some batch) kv).2.HasRows ids.length := fun hne => by
    rw [hrun hne, ← hlen]
    exact m.hasRows_batchOut _ _
  by_cases hone : numRounds (table.batchBytes cells tpSize) maxTokens ≤ 1
  · refine ⟨_, _, ?_, hwhole, fun hne => ⟨hwholeRows hne, hwholeRows hne⟩, fun j id _ => ?_⟩
    · rw [runStaticPipeline, if_pos hone]
      exact hwhole
    · rw [if_pos (Or.inl hone)]
  have hmax : 0 < maxTokens := by
    by_contra hzero
    obtain rfl : maxTokens = 0 := by omega
    exact hone (numRounds_zero _)
  have hmem : batch ∈ table.batchBytes cells tpSize :=
    List.mem_flatMap.2 ⟨ids, List.mem_of_getElem? hg, List.mem_replicate.2 ⟨htp.ne', rfl⟩⟩
  have hinv := GroupInv.rounds (m := m) kv (table.consistent ids) (isPrefill_sequenceRefsRunnerIn _ true)
    (wellFormed_sequenceRefsRunnerIn _ true) hmax (le_numRounds hmem)
  rw [← hbatch] at hinv
  have hpipeline := getElem?_runStaticPipeline m kvs depth htp hpp hone hg
  rw [← hbatch, ← hkv, ← hlen] at hpipeline
  refine ⟨_, _, hpipeline, hwhole, fun hne => ⟨hlen ▸ hinv.hasRows, hwholeRows hne⟩, fun j id hj => ?_⟩
  obtain ⟨hjlt, hid⟩ := List.getElem?_eq_some_iff.1 hj
  have hjbatch : j < batch.seqLens.length := hlen.symm ▸ hjlt
  have hseqLen : batch.seqLen j = ((table.seq id).packed true).inputIds.length := by
    rw [hbatch, seqLen_sequenceRefsRunnerIn _ (by simpa using hjlt), List.getElem_map, hid]
  by_cases hnil : ((table.seq id).packed true).inputIds = []
  · rw [if_neg (by simp [hone, hnil])]
    exact hinv.row_untouched hjbatch (by rw [hseqLen, hnil]; rfl)
  · rw [if_pos (Or.inr hnil), hrun (List.ne_nil_of_mem (List.mem_of_getElem? hj))]
    exact hinv.row_eq hjbatch (by rw [hseqLen]; exact List.length_pos_iff.2 hnil)

end Main

/-- A model that answers with the length of the prefix. -/
def lengthModel : RowModel where
  tokens := fun _ tokens => [tokens.length]
  logprobs := fun _ _ => []
  dummyTokens := [[0]]

/-- Prompts of three tokens; all of sequence `1` is cached. -/
def threeTokenTable : SeqTable where
  seq := fun id => { Sequence.new id [10, 11, 12] {} with prefillStartOffset := if id = 1 then 3 else 0 }
  seqId_eq := fun _ => rfl

/-- Two cells on two stages of two ranks.  Sequence `2` is split over two rounds, and sequence `1` has no tokens. -/
theorem runStaticPipeline_eq_split : ∃ out whole,
    (runStaticPipeline lengthModel (fun _ _ => 0) (threeTokenTable.batchBytes [[0, 1, 2], [3, 4]] 2)
        ([[0, 1, 2], [3, 4]].map List.length) 2 2 2 4)[0]? = some out ∧
      (runWholeBatch lengthModel (fun _ _ => 0) (threeTokenTable.batchBytes [[0, 1, 2], [3, 4]] 2) 2 2)[0]? =
        some whole ∧
      (out.HasRows 3 ∧ whole.HasRows 3) ∧ out.row 0 = whole.row 0 ∧ out.row 2 = whole.row 2 ∧
        (out.row 1).1 = some [] := by
  obtain ⟨out, whole, hout, hwhole, hrows, hrow⟩ := @runStaticPipeline_eq lengthModel (fun _ _ => 0) threeTokenTable
    [[0, 1, 2], [3, 4]] 2 2 2 (by decide) (by decide) 4 0 [0, 1, 2] rfl
  refine ⟨out, whole, hout, hwhole, hrows (by decide), ?_, ?_, ?_⟩
  · have h := hrow 0 0 rfl
    rwa [if_pos (Or.inr (by decide))] at h
  · have h := hrow 2 2 rfl
    rwa [if_pos (Or.inr (by decide))] at h
  · have h := hrow 1 1 rfl
    rw [if_neg (by decide +kernel)] at h
    exact h.1

/-- A row without tokens gets a token from one call and none from two rounds. -/
theorem not_runStaticPipeline_eq_empty_row :
    (runStaticPipeline lengthModel (fun _ _ => 0) (threeTokenTable.batchBytes [[0, 1]] 1) ([[0, 1]].map List.length) 1 2
        2 2).map RunnerOut.tokenIds = [[[3], []]] ∧
      (runWholeBatch lengthModel (fun _ _ => 0) (threeTokenTable.batchBytes [[0, 1]] 1) 1 2).map RunnerOut.tokenIds =
        [[[3], [0]]] := by
  decide +kernel

end NanoEngine
