import NanoEngine.Mtp.Greedy
import NanoEngine.Proto.Prepare
import NanoEngine.Streams.Bundle

/-!
# NanoEngine.Worker.Sample — the tokens that the runner returns for a prefill batch

`prepare_prefill_bytes` of `runtime/runner/input_preparer.py` as far as it says which rows are sampled, the rows that
`ParallelLMHead.forward` projects, and `_standard_sample` of `runtime/runner/model_runner.py`.  The head's weights, the
Gumbel noise and the log-probabilities are parameters; the placement of tensors and the clock are left out.

* `greedyTemperature`, `greedyMask`: the bound `1e-5` as a double and as a `float32`.
* `standardSample`: one token for every row, or one for every sampled row when all temperatures are greedy.
* `Aligned`: entry `i` of the vector is the token of row `i`, the argmax at a greedy temperature.
* `NeverRuns`: postprocessing with the vector does not run a sequence whose prefill is incomplete.
* `served_iff`: which batches get such a vector, whatever is drawn.
-/

namespace NanoEngine

open Updates

/-! ## What is sampled -/

/-- `aux.num_group_seqs`. -/
def WireBatch.numGroupSeqs (batch : WireBatch) : ℕ := batch.seqLens.length

/-- The fields of the batch context that the head and the sampler read. -/
structure SampleContext where
  isPrefill : Bool
  cuSeqlensQ : List ℕ
  samplingTokenIndices : Option (List ℕ)
  samplingSeqIndices : Option (List ℕ)

/-- `prepare_prefill_bytes`: the indices are set when some row of the batch is not sampled. -/
def preparePrefillBytes (info : PrefillMeta) (numSeqs : ℕ) : SampleContext where
  isPrefill := true
  cuSeqlensQ := info.cuSeqlensQ
  samplingTokenIndices := if info.samplingTokenIndices.length < numSeqs then some info.samplingTokenIndices else none
  samplingSeqIndices := if info.samplingTokenIndices.length < numSeqs then some info.samplingSeqIndices else none

section sampling

variable {H S : Type} [LinearOrder S]

/-- The token that the noise of row `r` draws from logits at a temperature: one of the vocabulary. -/
structure Draw (S : Type) where
  token : ℕ → List S → ℚ → ℕ
  token_lt : ∀ r logits t, token r logits t < max logits.length 1

/-- What is outside the repository's Python: the projection of a hidden state, the noise, and the log-probability of a
token. -/
structure SampleModel (H S : Type) where
  project : H → List S
  draw : Draw S
  logprob : List S → ℚ → ℕ → ℚ

/-- `float(t) < 1e-5`: the bound is a double. -/
def greedyTemperature (temperature : ℚ) : Bool := decide (temperature < 5902958103587057 / 590295810358705651712)

/-- `temperatures < 1e-5` on a tensor of `float32`, to which the bound is rounded. -/
def greedyMask (temperature : ℚ) : Bool := decide (temperature < 2748779 / 274877906944)

theorem greedyTemperature_of_mask {t : ℚ} (h : greedyMask t = true) : greedyTemperature t = true :=
  decide_eq_true ((of_decide_eq_true h).trans (by norm_num))

/-- Below the double and not below the `float32`: of the `float32` values only the one nearest to `1e-5`. -/
def borderline (temperature : ℚ) : Bool := greedyTemperature temperature && !greedyMask temperature

example : borderline (toFloat32 (1 / 100000)) = true ∧ borderline 0 = false ∧
    borderline 1 = false := by decide +kernel

namespace SampleModel

variable (m : SampleModel H S)

/-- `torch.where(greedy_mask, greedy_tokens, sample_tokens)` at row `r`. -/
def choose (r : ℕ) (logits : List S) (temperature : ℚ) : ℕ :=
  if greedyMask temperature then argmax logits else m.draw.token r logits temperature

/-- `Sampler.forward`. -/
def sample (logits : List (List S)) (temperatures : List ℚ) : List ℕ :=
  (logits.zip temperatures).mapIdx fun r row => m.choose r row.1 row.2

/-- The second result of `Sampler.forward_with_logprobs`. -/
def sampleLogprobs (logits : List (List S)) (temperatures : List ℚ) : List ℚ :=
  (logits.zip temperatures).mapIdx fun r row => m.logprob row.1 row.2 (m.choose r row.1 row.2)

/-- `ParallelLMHead.forward`: in a prefill the rows of the sampled tokens only; `none` is an index error. -/
def lmHead (context : SampleContext) (x : List H) : Option (List (List S)) :=
  (if context.isPrefill then
    match context.samplingTokenIndices with
    | some indices => gather x indices
    -- every row is sampled here, so every row has a last token
    | none => gather x (context.cuSeqlensQ.tail.map (· - 1))
  else some x).map (·.map m.project)

/-- `_standard_sample`: the tokens and, when some sequence wants them, the log-probabilities. -/
def standardSample (tpRank : ℕ) (context : SampleContext) (aux : WireBatch) (numSeqs : ℕ) (logits : List (List S)) :
    Option (List ℕ × Option (List ℚ)) :=
  let wantLp := aux.anyReturnCompletionLogprobs
  let zeros := (List.replicate numSeqs 0, if wantLp then some (List.replicate numSeqs 0) else none)
  if tpRank = 0 then
    if context.isPrefill && context.samplingSeqIndices == some [] then some zeros
    else if !wantLp && aux.temperatures.all greedyTemperature then
      some (logits.map argmax, none)
    else
      match context.isPrefill, context.samplingSeqIndices with
      | true, some indices => do
        let temperatures ← gather aux.temperatures indices
        some (scatter zeros.1 indices (m.sample logits temperatures),
          if wantLp then some (scatter (List.replicate numSeqs 0) indices (m.sampleLogprobs logits temperatures))
          else none)
      | _, _ => some (m.sample logits aux.temperatures,
          if wantLp then some (m.sampleLogprobs logits aux.temperatures) else none)
  else some zeros

/-- The batch through the head and the sampler of the sampling rank, from the hidden states of its tokens. -/
def samplePrefill (batch : WireBatch) (spSize blockSize maxNumSeqs : ℕ) (x : List H) :
    Option (List ℕ × Option (List ℚ)) := do
  let context := preparePrefillBytes (runnerInPrefill false batch spSize blockSize maxNumSeqs) batch.numGroupSeqs
  let logits ← m.lmHead context x
  m.standardSample 0 context batch batch.numGroupSeqs logits

end SampleModel

/-! ## The sampled rows of a batch -/

namespace WireBatch

/-- A row is sampled when it is not empty and its mask says so. -/
def sampled (batch : WireBatch) (i : ℕ) : Bool := decide (0 < batch.seqLen i) && batch.sampleMask.getD i true

/-- The place of the last token of row `i` in the batch. -/
def lastTokenIndex (batch : WireBatch) (i : ℕ) : ℕ := batch.rowOffset (i + 1) - 1

def sampledRows (batch : WireBatch) : List ℕ := (List.range batch.seqLens.length).filter batch.sampled

/-- The lengths of the fields agree, the temperatures included. -/
structure Sampleable (batch : WireBatch) : Prop extends WellFormed batch where
  temperatures : batch.temperatures.length = batch.seqLens.length

theorem sampleable_sequenceRefsRunnerIn (seqs : List Sequence) (isPrefill : Bool) :
    (sequenceRefsRunnerIn seqs isPrefill).Sampleable := by
  have hfold : ∀ (seqs : List Sequence) (batch : WireBatch), batch.temperatures.length = batch.seqLens.length →
      (seqs.foldl push batch).temperatures.length = (seqs.foldl push batch).seqLens.length := by
    intro seqs
    induction seqs with
    | nil => exact fun batch h => h
    | cons item seqs ih => exact fun batch h => ih _ (by simp [push, h])
  exact ⟨wellFormed_sequenceRefsRunnerIn seqs isPrefill, hfold seqs _ rfl⟩

/-- The loop over the rows, after `k` of them. -/
structure RowsDone (batch : WireBatch) (k : ℕ) (st : PrefillRows) : Prop where
  totalQ : st.totalQ = batch.rowOffset k
  cuQ : st.cuQ = (List.range (k + 1)).map batch.rowOffset
  tokens : st.samplingTokenIndices = ((List.range k).filter batch.sampled).map batch.lastTokenIndex
  seqs : st.samplingSeqIndices = (List.range k).filter batch.sampled

variable {batch : WireBatch} {k : ℕ} {st : PrefillRows}

theorem RowsDone.next (h : RowsDone batch k st) (hk : k < batch.seqLens.length) :
    RowsDone batch (k + 1) (batch.prefillRow st (batch.seqLens[k], k)) := by
  have hlen : batch.seqLens[k] = batch.seqLen k := (List.getD_eq_getElem _ 0 hk).symm
  have htotal : st.totalQ + batch.seqLens[k] = batch.rowOffset (k + 1) := by
    rw [h.totalQ, hlen, rowOffset_add_seqLen batch hk]
  have hmask : (decide (0 < batch.seqLens[k]) && batch.sampleMask.getD k true) = batch.sampled k := by
    rw [hlen]
    rfl
  refine ⟨htotal, ?_, ?_, ?_⟩
  · rw [List.range_succ, List.map_append, ← h.cuQ]
    exact congrArg (fun n => st.cuQ ++ [n]) htotal
  · simp only [prefillRow, hmask, htotal, h.tokens, List.range_succ, List.filter_append]
    cases hs : batch.sampled k <;> simp [hs, lastTokenIndex]
  · simp only [prefillRow, hmask, h.seqs, List.range_succ, List.filter_append]
    cases hs : batch.sampled k <;> simp [hs]

theorem rowsDone_prefillRows (batch : WireBatch) : RowsDone batch batch.seqLens.length batch.prefillRows := by
  have hrun : ∀ k ≤ batch.seqLens.length, RowsDone batch k
      ((batch.seqLens.take k).zipIdx.foldl batch.prefillRow ⟨0, 0, [0], [0], 0, 0, [], []⟩) := by
    intro k
    induction k with
    | zero => exact fun _ => ⟨rfl, rfl, rfl, rfl⟩
    | succ k ih =>
      intro hk
      have hstep := (ih (by omega)).next (by omega)
      rw [List.take_add_one, List.getElem?_eq_getElem (by omega), Option.toList_some, List.zipIdx_append,
        List.foldl_append, List.length_take, Nat.zero_add, Nat.min_eq_left (by omega)]
      exact hstep
  have hall := hrun _ le_rfl
  rwa [List.take_length] at hall

theorem lastTokenIndex_lt (hwf : batch.WellFormed) {i : ℕ} (hi : i < batch.seqLens.length)
    (hs : batch.sampled i = true) : batch.lastTokenIndex i < batch.inputIds.length := by
  have hpos : 0 < batch.seqLen i := by
    rw [sampled, Bool.and_eq_true, decide_eq_true_eq] at hs
    exact hs.1
  have hend := batch.rowOffset_le (i + 1)
  have hrow := batch.rowOffset_add_seqLen hi
  rw [hwf.inputIds]
  unfold lastTokenIndex
  omega

end WireBatch

/-! ## The vector -/

/-- The token that row `r` of the sampler is to get: the argmax of its logits at a greedy temperature, and what is drawn
at another one. -/
def SampleModel.wanted (m : SampleModel H S) (r : ℕ) (logits : List S) (temperature : ℚ) : ℕ :=
  if greedyTemperature temperature then argmax logits else m.draw.token r logits temperature

/-- The vector has an entry for every row, and that of a sampled row is the token wanted for the logits of its last
token. -/
structure Aligned (m : SampleModel H S) (batch : WireBatch) (x : List H) (out : List ℕ) : Prop where
  length : out.length = batch.numGroupSeqs
  row : ∀ i < batch.numGroupSeqs, batch.sampled i = true →
    ∃ (h : H) (r : ℕ), x[batch.lastTokenIndex i]? = some h ∧
    out[i]? = some (m.wanted r (m.project h) (batch.temperatures.getD i 0))

/-- The shortcut is taken: greedy rows only and nobody wants log-probabilities. -/
def WireBatch.greedyOnly (batch : WireBatch) : Bool :=
  !batch.anyReturnCompletionLogprobs && batch.temperatures.all greedyTemperature

variable {m : SampleModel H S} {batch : WireBatch} {x : List H} {spSize blockSize maxNumSeqs : ℕ}

theorem sampledRows_eq_range (h : ¬ batch.sampledRows.length < batch.numGroupSeqs) :
    batch.sampledRows = List.range batch.seqLens.length := by
  refine List.filter_eq_self.2 ?_
  refine List.length_filter_eq_length_iff.1 (le_antisymm (List.length_filter_le _ _) ?_)
  rw [List.length_range]
  exact Nat.not_lt.1 h

omit [LinearOrder S] in
/-- The head projects the last tokens of the sampled rows, with the indices or without. -/
theorem lmHead_eq (m : SampleModel H S) (batch : WireBatch) (spSize blockSize maxNumSeqs : ℕ) (x : List H) :
    m.lmHead (preparePrefillBytes (runnerInPrefill false batch spSize blockSize maxNumSeqs) batch.numGroupSeqs) x =
      (gather x (batch.sampledRows.map batch.lastTokenIndex)).map (·.map m.project) := by
  have hrows := batch.rowsDone_prefillRows
  have htokens : batch.prefillRows.samplingTokenIndices = batch.sampledRows.map batch.lastTokenIndex := hrows.tokens
  unfold SampleModel.lmHead preparePrefillBytes runnerInPrefill
  dsimp only
  rw [if_pos rfl, htokens, List.length_map]
  by_cases hlt : batch.sampledRows.length < batch.numGroupSeqs
  · rw [if_pos hlt]
  · rw [if_neg hlt]
    dsimp only
    rw [hrows.cuQ, sampledRows_eq_range hlt, List.range_succ_eq_map, List.map_cons, List.tail_cons,
      List.map_map, List.map_map]
    rfl

theorem samplingSeqIndices_eq (batch : WireBatch) (spSize blockSize maxNumSeqs : ℕ) :
    let context := preparePrefillBytes (runnerInPrefill false batch spSize blockSize maxNumSeqs) batch.numGroupSeqs
    context.isPrefill = true ∧ context.samplingSeqIndices =
      if batch.sampledRows.length < batch.numGroupSeqs then some batch.sampledRows else none := by
  have hrows := batch.rowsDone_prefillRows
  have htokens : batch.prefillRows.samplingTokenIndices = batch.sampledRows.map batch.lastTokenIndex := hrows.tokens
  have hseqs : batch.prefillRows.samplingSeqIndices = batch.sampledRows := hrows.seqs
  refine ⟨rfl, ?_⟩
  unfold preparePrefillBytes runnerInPrefill
  dsimp only
  rw [htokens, hseqs, List.length_map]

/-- The logits of the head: row `r` is that of the last token of the sampled row `r`. -/
structure HeadRows (m : SampleModel H S) (batch : WireBatch) (x : List H) (logits : List (List S)) : Prop where
  length : logits.length = batch.sampledRows.length
  row : ∀ r i : ℕ, batch.sampledRows[r]? = some i →
    ∃ h, x[batch.lastTokenIndex i]? = some h ∧ logits[r]? = some (m.project h)

omit [LinearOrder S] in
theorem exists_headRows (hbatch : batch.Sampleable) (hx : x.length = batch.inputIds.length) :
    ∃ logits, (gather x (batch.sampledRows.map batch.lastTokenIndex)).map (·.map m.project) = some logits ∧
      HeadRows m batch x logits := by
  have hlt : ∀ i ∈ batch.sampledRows, batch.lastTokenIndex i < x.length := by
    intro i hi
    obtain ⟨hrange, hs⟩ := List.mem_filter.1 hi
    rw [hx]
    exact WireBatch.lastTokenIndex_lt hbatch.toWellFormed (List.mem_range.1 hrange) hs
  have hhidden : ∀ i ∈ batch.sampledRows.map batch.lastTokenIndex, i < x.length := List.forall_mem_map.2 hlt
  obtain ⟨hidden, hgather⟩ := gather_of_lt hhidden
  refine ⟨hidden.map m.project, by rw [hgather, Option.map_some], ?_, fun r i hr => ?_⟩
  · rw [List.length_map, length_gather hgather, List.length_map]
  · have hi := hlt i (List.mem_of_getElem? hr)
    have hentry := getElem?_gather hgather (r := r) (by rw [List.getElem?_map, hr, Option.map_some]) hi
    rw [List.getElem?_eq_getElem hi] at hentry ⊢
    exact ⟨_, rfl, by rw [List.getElem?_map, hentry, Option.map_some]⟩

theorem getElem?_sample {logits : List (List S)} {temperatures : List ℚ} {r : ℕ} {l : List S} {t : ℚ}
    (hl : logits[r]? = some l) (ht : temperatures[r]? = some t) :
    (m.sample logits temperatures)[r]? = some (m.choose r l t) := by
  have hzip : (logits.zip temperatures)[r]? = some (l, t) := List.getElem?_zip_eq_some.2 ⟨hl, ht⟩
  rw [SampleModel.sample, List.getElem?_mapIdx, hzip, Option.map_some]

theorem temperature_eq (hbatch : batch.Sampleable) {i : ℕ} (hi : i < batch.numGroupSeqs) :
    batch.temperatures[i]? = some (batch.temperatures.getD i 0) := by
  have hlen : i < batch.temperatures.length := by rwa [hbatch.temperatures]
  rw [List.getElem?_eq_getElem hlen, List.getD_eq_getElem _ 0 hlen]

/-- What the sampler returns: the entry of a sampled row is chosen from the logits of its last token. -/
structure Chosen (m : SampleModel H S) (batch : WireBatch) (x : List H) (out : List ℕ) : Prop where
  length : out.length = batch.numGroupSeqs
  row : ∀ i < batch.numGroupSeqs, batch.sampled i = true →
    ∃ (h : H) (r : ℕ), x[batch.lastTokenIndex i]? = some h ∧
    out[i]? = some (m.choose r (m.project h) (batch.temperatures.getD i 0))

/-- No sampled row has a borderline temperature, unless there is one token to choose from. -/
def NoBorderline (project : H → List S) (batch : WireBatch) (x : List H) : Prop :=
  ∀ i < batch.numGroupSeqs, batch.sampled i = true → borderline (batch.temperatures.getD i 0) = true →
    ∀ h, x[batch.lastTokenIndex i]? = some h → (project h).length ≤ 1

omit [LinearOrder S] in
theorem noBorderline_of_temperatures (hbatch : batch.Sampleable)
    (h : ∀ t ∈ batch.temperatures, borderline t = false)
    (project : H → List S) : NoBorderline project batch x := by
  intro i hi _ hborder
  rw [h _ (List.mem_of_getElem? (temperature_eq hbatch hi))] at hborder
  cases hborder

/-- Off the border the sampler chooses what is wanted. -/
theorem choose_eq_wanted (m : SampleModel H S) (r : ℕ) {logits : List S} {t : ℚ}
    (h : borderline t = true → logits.length ≤ 1) : m.choose r logits t = m.wanted r logits t := by
  unfold SampleModel.choose SampleModel.wanted
  by_cases hmask : greedyMask t = true
  · rw [if_pos hmask, if_pos (greedyTemperature_of_mask hmask)]
  by_cases hgreedy : greedyTemperature t = true
  · -- one token to choose from
    have hlen := h (by simp [borderline, hgreedy, hmask])
    have hdraw := m.draw.token_lt r logits t
    have hargmax : argmax logits = 0 := by
      rcases eq_or_ne logits [] with rfl | hne
      · rfl
      · have hlt := argmax_lt hne
        omega
    rw [if_neg hmask, if_pos hgreedy, hargmax]
    omega
  · rw [if_neg hmask, if_neg hgreedy]

theorem Chosen.aligned {out : List ℕ} (h : Chosen m batch x out) (hborder : NoBorderline m.project batch x) :
    Aligned m batch x out where
  length := h.length
  row := fun i hi hs => by
    obtain ⟨hidden, r, hx, hout⟩ := h.row i hi hs
    refine ⟨hidden, r, hx, ?_⟩
    rw [hout, choose_eq_wanted m r fun hb => hborder i hi hs hb hidden hx]

/-- A draw that is never the argmax when there is another token. -/
def Draw.other : Draw S where
  token := fun _ logits _ => if argmax logits = 0 then min 1 (logits.length - 1) else 0
  token_lt := fun _ logits _ => by
    split_ifs <;> omega

/-- A row on the border can be drawn another token. -/
theorem noBorderline_of_chosen {out : List ℕ} (hchosen : Chosen { m with draw := Draw.other } batch x out)
    (haligned : Aligned { m with draw := Draw.other } batch x out) : NoBorderline m.project batch x := by
  intro i hi hs hborder h hx
  obtain ⟨h₁, r₁, hx₁, hout₁⟩ := hchosen.row i hi hs
  obtain ⟨h₂, r₂, hx₂, hout₂⟩ := haligned.row i hi hs
  obtain rfl : h = h₁ := Option.some.inj (hx.symm.trans hx₁)
  obtain rfl : h = h₂ := Option.some.inj (hx.symm.trans hx₂)
  have heq := Option.some.inj (hout₁.symm.trans hout₂)
  unfold borderline at hborder
  rw [Bool.and_eq_true, Bool.not_eq_true'] at hborder
  simp only [SampleModel.choose, SampleModel.wanted, hborder.1, hborder.2, Bool.false_eq_true, if_false, if_true,
    Draw.other] at heq
  split_ifs at heq <;> omega

/-- The shortcut: the vector has as many entries as there are sampled rows. -/
theorem aligned_argmax_iff (hbatch : batch.Sampleable) {logits : List (List S)} (hrows : HeadRows m batch x logits)
    (hgreedy : batch.greedyOnly = true) :
    Aligned m batch x (logits.map argmax) ↔ ∀ i < batch.numGroupSeqs, batch.sampled i = true := by
  constructor
  · intro h i hi
    have hfull : ¬ batch.sampledRows.length < batch.numGroupSeqs := by
      rw [← hrows.length, ← List.length_map argmax, h.length]
      exact lt_irrefl _
    have hall := sampledRows_eq_range hfull
    have hmem : i ∈ batch.sampledRows := by
      rw [hall]
      exact List.mem_range.2 hi
    exact (List.mem_filter.1 hmem).2
  · intro h
    have hall : batch.sampledRows = List.range batch.seqLens.length :=
      List.filter_eq_self.2 fun i hi => h i (List.mem_range.1 hi)
    refine ⟨?_, fun i hi _ => ?_⟩
    · rw [List.length_map, hrows.length, hall, List.length_range]
      rfl
    · obtain ⟨hidden, hx, hlogits⟩ := hrows.row i i (by rw [hall]; exact List.getElem?_range hi)
      have htemp : greedyTemperature (batch.temperatures.getD i 0) = true := by
        rw [WireBatch.greedyOnly, Bool.and_eq_true] at hgreedy
        exact List.all_eq_true.1 hgreedy.2 _ (List.mem_of_getElem? (temperature_eq hbatch hi))
      exact ⟨hidden, i, hx, by rw [List.getElem?_map, hlogits, Option.map_some, SampleModel.wanted, if_pos htemp]⟩

/-- The sampler's tokens put at the sampled rows. -/
theorem chosen_scatter (hbatch : batch.Sampleable) {logits : List (List S)} (hrows : HeadRows m batch x logits)
    {temperatures : List ℚ} (htemps : gather batch.temperatures batch.sampledRows = some temperatures) :
    Chosen m batch x
      (scatter (List.replicate batch.numGroupSeqs 0) batch.sampledRows (m.sample logits temperatures)) := by
  refine ⟨by rw [length_scatter, List.length_replicate], fun i hi hs => ?_⟩
  have hmem : i ∈ batch.sampledRows := List.mem_filter.2 ⟨List.mem_range.2 hi, hs⟩
  obtain ⟨r, hr⟩ := List.mem_iff_getElem?.1 hmem
  obtain ⟨hidden, hx, hlogits⟩ := hrows.row r i hr
  have htemp := getElem?_gather htemps hr (by rwa [hbatch.temperatures])
  rw [temperature_eq hbatch hi] at htemp
  exact ⟨hidden, r, hx, getElem?_scatter (List.nodup_range.filter _) hr (getElem?_sample hlogits htemp)
    (by rwa [List.length_replicate])⟩

/-- The sampler's tokens as they are, when every row is sampled. -/
theorem chosen_sample (hbatch : batch.Sampleable) {logits : List (List S)} (hrows : HeadRows m batch x logits)
    (hall : batch.sampledRows = List.range batch.seqLens.length) :
    Chosen m batch x (m.sample logits batch.temperatures) := by
  have hlen : logits.length = batch.numGroupSeqs := by
    rw [hrows.length, hall, List.length_range]
    rfl
  refine ⟨?_, fun i hi _ => ?_⟩
  · rw [SampleModel.sample, List.length_mapIdx, List.length_zip, hlen, hbatch.temperatures]
    exact Nat.min_self _
  · obtain ⟨hidden, hx, hlogits⟩ := hrows.row i i (by rw [hall]; exact List.getElem?_range hi)
    exact ⟨hidden, i, hx, getElem?_sample hlogits (temperature_eq hbatch hi)⟩

/-- **What the sampling rank returns for a prefill batch with a sampled row**: one entry for every sampled row from the
shortcut, and the sampler's choices put at their rows otherwise. -/
theorem samplePrefill_ok (m : SampleModel H S) (spSize blockSize maxNumSeqs : ℕ) (hbatch : batch.Sampleable)
    (hx : x.length = batch.inputIds.length) (hsome : ∃ i < batch.numGroupSeqs, batch.sampled i = true) :
    ∃ out logprobs, m.samplePrefill batch spSize blockSize maxNumSeqs x = some (out, logprobs) ∧
      (batch.greedyOnly = true → (Aligned m batch x out ↔ ∀ i < batch.numGroupSeqs, batch.sampled i = true)) ∧
      (batch.greedyOnly = false → Chosen m batch x out) := by
  obtain ⟨logits, hlogits, hrows⟩ := exists_headRows (m := m) hbatch hx
  have hne : batch.sampledRows ≠ [] := by
    obtain ⟨i, hi, hs⟩ := hsome
    exact List.ne_nil_of_mem (List.mem_filter.2 ⟨List.mem_range.2 hi, hs⟩)
  have hcontext := samplingSeqIndices_eq batch spSize blockSize maxNumSeqs
  unfold SampleModel.samplePrefill
  dsimp only at hcontext ⊢
  rw [lmHead_eq, hlogits]
  generalize preparePrefillBytes (runnerInPrefill false batch spSize blockSize maxNumSeqs) batch.numGroupSeqs = context
    at hcontext ⊢
  obtain ⟨hprefill, hindices⟩ := hcontext
  change ∃ out logprobs, m.standardSample 0 context batch batch.numGroupSeqs logits = some (out, logprobs) ∧ _
  unfold SampleModel.standardSample
  rw [if_pos rfl, hprefill, hindices]
  have hnot : ((if batch.sampledRows.length < batch.numGroupSeqs then some batch.sampledRows else none) ==
      some []) = false := by
    split <;> simp [hne]
  rw [hnot, Bool.and_false]
  dsimp only
  rw [if_neg Bool.false_ne_true]
  change ∃ out logprobs, (if batch.greedyOnly = true then _ else _) = some (out, logprobs) ∧ _
  -- the shortcut has a row for every sequence; otherwise the choices are scattered to their rows
  by_cases hgreedy : batch.greedyOnly = true
  · rw [if_pos hgreedy]
    exact ⟨_, _, rfl, fun _ => aligned_argmax_iff hbatch hrows hgreedy,
      fun hfalse => absurd (hgreedy.symm.trans hfalse) (by decide)⟩
  · rw [if_neg hgreedy]
    by_cases hlt : batch.sampledRows.length < batch.numGroupSeqs
    · have hrange : ∀ i ∈ batch.sampledRows, i < batch.temperatures.length := fun i hi => by
        rw [hbatch.temperatures]
        exact List.mem_range.1 (List.mem_filter.1 hi).1
      obtain ⟨temperatures, htemps⟩ := gather_of_lt hrange
      rw [if_pos hlt]
      dsimp only
      rw [htemps]
      exact ⟨_, _, rfl, fun htrue => absurd htrue hgreedy, fun _ => chosen_scatter hbatch hrows htemps⟩
    · rw [if_neg hlt]
      exact ⟨_, _, rfl, fun htrue => absurd htrue hgreedy,
        fun _ => chosen_sample hbatch hrows (sampledRows_eq_range hlt)⟩

/-! ## Postprocessing with the vector -/

namespace Scheduler

/-- The prefill of the sequence has not reached its target. -/
def Incomplete (s : Scheduler) (seqId : ℕ) : Prop := ∃ a, s.seqTable seqId = some a ∧ a.numTokens < promptTarget a

/-- An incomplete prefill that stays one, and that is run no more than before. -/
structure StaysOut (seqId : ℕ) (s s' : Scheduler) : Prop where
  incomplete : s'.Incomplete seqId
  running : ∀ d, seqId ∈ s'.running d ↔ seqId ∈ s.running d

variable {s s' : Scheduler} {seqId : ℕ}

theorem StaysOut.trans {s'' : Scheduler} (h : StaysOut seqId s s') (k : StaysOut seqId s' s'') : StaysOut seqId s s'' :=
  ⟨k.incomplete, fun d => (k.running d).trans (h.running d)⟩

theorem Untouched.staysOut (h : Untouched seqId s s') (hs : s.Incomplete seqId) : StaysOut seqId s s' := by
  obtain ⟨a, ha, hlt⟩ := hs
  exact ⟨⟨a, h.entry.trans ha, hlt⟩, h.running⟩

variable [Xxh3]

/-- The visit of the sequence itself, with a row. -/
theorem postprocessSeq_staysOut (hs : s.Incomplete seqId) (d : ℕ) (tokens : List ℤ) (logprobs : List ℚ) :
    StaysOut seqId s (s.postprocessSeq d seqId (some tokens) logprobs) := by
  obtain ⟨a, ha, hlt⟩ := hs
  unfold postprocessSeq
  dsimp only
  rw [ha]
  dsimp only
  rw [if_pos hlt]
  split
  case isTrue => exact ⟨⟨a, ha, hlt⟩, fun _ => .rfl⟩
  case isFalse =>
    have hf := commitHbmBlocks_frame s seqId a.numTokens
    have htable := congrFun (commitHbmBlocks_seqTable s seqId a.numTokens) seqId
    refine ⟨⟨{ a with status := .prefilling }, ?_, hlt⟩, fun d' => ?_⟩
    · unfold updateSeq pushPrefilling
      simp [htable, ha]
    · exact iff_of_eq (congrArg (fun q => seqId ∈ q d') hf.toSameQueues.running)

theorem postprocessGroup_staysOut (hs : s.Incomplete seqId) (d : ℕ) {ids : List ℕ} {rows : List (List ℤ)}
    (hrows : ids.length ≤ rows.length) (logs : List (List ℚ)) :
      StaysOut seqId s (postprocessGroup d ids rows logs s) := by
  induction ids generalizing rows logs s with
  | nil => exact ⟨hs, fun _ => .rfl⟩
  | cons id ids ih =>
    cases rows with
    | nil => exact absurd hrows (by simp)
    | cons row rows =>
      have hvisit : StaysOut seqId s (s.postprocessSeq d id (some row) (logs.head?.getD [])) := by
        by_cases hid : seqId = id
        · subst hid
          exact postprocessSeq_staysOut hs d row _
        · exact (postprocessSeq_untouched hid s d (some row) _).staysOut hs
      exact hvisit.trans (ih hvisit.incomplete (by simpa using hrows) logs.tail)

theorem postprocessGroups_staysOut (hs : s.Incomplete seqId) {groups : List (List ℕ)} {rows : List (List (List ℤ))}
    (hrows : ∀ g, seqId ∈ groups.getD g [] → (groups.getD g []).length ≤ (rows.getD g []).length) (k : ℕ)
    (logs : List (List (List ℚ))) : StaysOut seqId s (postprocessGroups k groups rows logs s) := by
  induction groups generalizing k rows logs s with
  | nil => exact ⟨hs, fun _ => .rfl⟩
  | cons ids groups ih =>
    have hrest : ∀ g, seqId ∈ groups.getD g [] → (groups.getD g []).length ≤ (rows.tail.getD g []).length := by
      intro g hg
      have h := hrows (g + 1) (by rwa [List.getD_cons_succ])
      cases rows with
      | nil => exact h
      | cons row rows => exact h
    cases rows with
    | nil => exact ih hs hrest (k + 1) logs.tail
    | cons row rows =>
      have hvisit : StaysOut seqId s (postprocessGroup (k / s.group) ids row (logs.head?.getD []) s) := by
        by_cases hid : seqId ∈ ids
        · exact postprocessGroup_staysOut hs _ (hrows 0 hid) _
        · exact (postprocessGroup_untouched ids row _ s hid).staysOut hs
      exact hvisit.trans (ih hvisit.incomplete hrest (k + 1) logs.tail)

/-- With a row for every sequence of its groups, an incomplete prefill is not moved to the running queue. -/
theorem postprocessImpl_staysOut (hs : s.Incomplete seqId) {groups : List (List ℕ)} {rows : List (List (List ℤ))}
    (hrows : ∀ g, seqId ∈ groups.getD g [] → (groups.getD g []).length ≤ (rows.getD g []).length)
    (logs : List (List (List ℚ))) {d : ℕ} (hrun : seqId ∈ (s.postprocessImpl groups rows logs).running d) :
    seqId ∈ s.running d := by
  have hstays := postprocessGroups_staysOut (s := s.postprocessStart groups) hs hrows 0 logs
  have hstart := (hstays.running d).1 hrun
  exact (List.mem_filter.1 hstart).1

end Scheduler

section served

variable [Xxh3]

/-- Postprocessing a step whose group `g` got the vector as its rows does not move a sequence of the group to the
running queue while its prefill is incomplete. -/
def NeverRuns (numSeqs : ℕ) (out : List ℕ) : Prop :=
  ∀ (s : Scheduler) (groups : List (List ℕ)) (rows : List (List (List ℤ)))
    (logs : List (List (List ℚ))) (g seqId d : ℕ),
    (groups.getD g []).length = numSeqs → rows[g]? = some (out.map fun token : ℕ => [(token : ℤ)]) →
    seqId ∈ groups.getD g [] → (∀ g', g' ≠ g → seqId ∉ groups.getD g' []) → s.Incomplete seqId →
    seqId ∈ (s.postprocessImpl groups rows logs).running d → seqId ∈ s.running d

omit [LinearOrder S] in
theorem neverRuns_of_length {n : ℕ} {out : List ℕ} (h : out.length = n) : NeverRuns n out := by
  intro s groups rows logs g seqId d hlen hrows hmem honly hs hrun
  refine Scheduler.postprocessImpl_staysOut hs (fun g' hg' => ?_) logs hrun
  by_cases heq : g' = g
  · subst heq
    rw [hlen, ← h, List.getD_eq_getElem?_getD, hrows, Option.getD_some, List.length_map]
  · exact absurd hg' (honly g' heq)

/-- The batch gets one aligned row for every sequence, and postprocessing is safe with them. -/
def SampleModel.Served (m : SampleModel H S) (batch : WireBatch) (spSize blockSize maxNumSeqs : ℕ)
    (x : List H) : Prop :=
  ∃ out logprobs, m.samplePrefill batch spSize blockSize maxNumSeqs x = some (out, logprobs) ∧
    Aligned m batch x out ∧ NeverRuns batch.numGroupSeqs out

/-- **Which batches get one aligned row for every sequence, whatever is drawn**: those that take the shortcut if all
rows are sampled, and the others if no sampled row has a borderline temperature. -/
theorem served_iff (m : SampleModel H S) (hbatch : batch.Sampleable) (hx : x.length = batch.inputIds.length)
    (hsome : ∃ i < batch.numGroupSeqs, batch.sampled i = true) :
    (∀ draw : Draw S, { m with draw := draw }.Served batch spSize blockSize maxNumSeqs x) ↔
      if batch.greedyOnly then ∀ i < batch.numGroupSeqs, batch.sampled i = true
      else NoBorderline m.project batch x := by
  cases hgreedy : batch.greedyOnly with
  | true =>
    rw [if_pos rfl]
    constructor
    · intro h
      obtain ⟨out, logprobs, hout, haligned, -⟩ := h m.draw
      obtain ⟨out', logprobs', hout', hiff, -⟩ := samplePrefill_ok m spSize blockSize maxNumSeqs hbatch hx hsome
      obtain ⟨rfl, -⟩ := Prod.mk.inj (Option.some.inj (hout.symm.trans hout'))
      exact (hiff hgreedy).1 haligned
    · intro hall draw
      obtain ⟨out, logprobs, hout, hiff, -⟩ :=
        samplePrefill_ok { m with draw := draw } spSize blockSize maxNumSeqs hbatch hx hsome
      have haligned := (hiff hgreedy).2 hall
      exact ⟨out, logprobs, hout, haligned, neverRuns_of_length haligned.length⟩
  | false =>
    rw [if_neg Bool.false_ne_true]
    constructor
    · intro h
      obtain ⟨out, logprobs, hout, haligned, -⟩ := h Draw.other
      obtain ⟨out', logprobs', hout', -, hchosen⟩ :=
        samplePrefill_ok { m with draw := Draw.other } spSize blockSize maxNumSeqs hbatch hx hsome
      obtain ⟨rfl, -⟩ := Prod.mk.inj (Option.some.inj (hout.symm.trans hout'))
      exact noBorderline_of_chosen (hchosen hgreedy) haligned
    · intro hborder draw
      obtain ⟨out, logprobs, hout, -, hchosen⟩ :=
        samplePrefill_ok { m with draw := draw } spSize blockSize maxNumSeqs hbatch hx hsome
      have haligned := (hchosen hgreedy).aligned hborder
      exact ⟨out, logprobs, hout, haligned, neverRuns_of_length haligned.length⟩

end served

end sampling

/-! ## A chunk that ends a batch -/

section evaluated

attribute [local instance] codeHash

/-- Two prompts for a step of three tokens: the second one does not fit. -/
def twoPrompts (temperature : ℚ) : Scheduler :=
  let params : SamplingParams := { temperature := temperature }
  ((Scheduler.new { Scheduler.eosConfig with maxNumBatchedTokens := 3 }).addSequence
    (requestToSequence { seqId := 0, promptTokenIds := [5], samplingParams := params })).addSequence
      (requestToSequence { seqId := 1, promptTokenIds := [1, 2, 3, 4], samplingParams := params })

/-- The scheduler after it chose the batch. -/
def chunked (temperature : ℚ) : Scheduler := (twoPrompts temperature).schedule.2

def chunkBatch (temperature : ℚ) : WireBatch :=
  sequenceRefsRunnerIn ([0, 1].filterMap (chunked temperature).seqTable) true

/-- Token `t` is followed by `t + 1`: the logit of a token is its distance from it. -/
def successorModel : SampleModel ℤ ℤ where
  project := fun t => (List.range 10).map fun v => -|t + 1 - v|
  draw := .other
  logprob := fun _ _ _ => 0

/-- At temperature one the sampler's token is put at the row of the first prompt. -/
theorem served_iff_sampler : successorModel.Served (chunkBatch 1) 1 4 8 (chunkBatch 1).inputIds := by
  have hbatch : (chunkBatch 1).Sampleable := WireBatch.sampleable_sequenceRefsRunnerIn _ _
  refine (served_iff successorModel hbatch rfl ⟨0, by decide +kernel, by decide +kernel⟩).2 ?_ _
  rw [if_neg (by decide +kernel)]
  exact noBorderline_of_temperatures hbatch (by decide +kernel) _

/-- At temperature zero the vector of the two rows has one entry, and the sequence without a row is run with half its
prompt. -/
theorem not_served : (¬ ∀ (m : SampleModel ℤ ℤ) (batch : WireBatch) (x : List ℤ), batch.Sampleable →
    x.length = batch.inputIds.length → (∃ i < batch.numGroupSeqs, batch.sampled i = true) →
      m.Served batch 1 4 8 x) ∧
    successorModel.samplePrefill (chunkBatch 0) 1 4 8 (chunkBatch 0).inputIds = some ([6], none) ∧
    ((chunked 0).postprocessImpl [[0, 1]] [[[6]]] []).running 0 = [0, 1] ∧
    (((chunked 0).postprocessImpl [[0, 1]] [[[6]]] []).seqTable 1).map
      (fun a => (a.numTokens, Scheduler.promptTarget a)) = some (2, 4) := by
  have hbatch : (chunkBatch 0).Sampleable := WireBatch.sampleable_sequenceRefsRunnerIn _ _
  have hsome : ∃ i < (chunkBatch 0).numGroupSeqs, (chunkBatch 0).sampled i = true :=
    ⟨0, by decide +kernel, by decide +kernel⟩
  refine ⟨fun h => ?_, by decide +kernel, by decide +kernel, by decide +kernel⟩
  obtain ⟨out, logprobs, hout, haligned, -⟩ := h successorModel _ _ hbatch rfl hsome
  obtain ⟨out', logprobs', hout', hiff, -⟩ := samplePrefill_ok successorModel 1 4 8 hbatch rfl hsome
  obtain ⟨rfl, -⟩ := Prod.mk.inj (Option.some.inj (hout.symm.trans hout'))
  have hchunk := (hiff (by decide +kernel)).1 haligned 1 (by decide +kernel)
  revert hchunk
  decide +kernel

end evaluated

end NanoEngine
