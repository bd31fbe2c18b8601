import NanoEngine.Lib.Transition
import NanoEngine.Lib.Updates
import NanoEngine.Mtp.Greedy

/-!
# NanoEngine.Mtp.Verify — decoding with and without drafts

`prepare_lazy_verify_decode`, `lazy_verify_sample` and `build_output_tokens` of `runtime/runner/mtp_runner.py` around a
target call, with all rows at temperature zero, and the plain decode step.  The drafts of a step are given with it: they
stand for any predictor, also for one that answers with old drafts.  A KV entry is the token it was computed from; its
mark `stale` is set when the token was a draft that the step rejected.

* `prepareLazyVerifyDecode`: the rows `[base, d1, …, dN]` of the target call.
* `MtpState.verifyStep`, `MtpState.decodeStep`: one step up to the tokens appended by `postprocess`.
* `MtpInv`: the tokens after the prompt are greedy, the cache holds all of them but the last, and every stale entry
  lies behind.
* `emitted_greedy`: what any run emits.
-/

namespace NanoEngine

open Transition Updates

/-- One sequence of `prepare_decode_bytes`: its last token, at its last position. -/
structure DecodeInput where
  seqId : ℕ
  inputId : ℕ
  position : ℕ
  contextLen : ℕ

/-- One row of the target call; `cachePosition` is where `slot_mapping` puts its KV entry. -/
structure TargetRow where
  seqId : ℕ
  inputId : ℕ
  position : ℕ
  cachePosition : ℕ

/-- `slot_mapping`. -/
def TargetRow.slot (row : TargetRow) : ℕ × ℕ := (row.seqId, row.cachePosition)

/-- The token a KV entry was computed from, and whether it is left behind by a rejected draft. -/
structure KvEntry where
  token : ℕ
  stale : Bool

/-- `prepare_lazy_verify_decode`. -/
def prepareLazyVerifyDecode (inputs : List DecodeInput) (drafts : List (List ℕ)) : List TargetRow :=
  (List.zip inputs drafts).flatMap fun x =>
    (x.1.inputId :: x.2).zipIdx.map fun t =>
      { seqId := x.1.seqId
        inputId := t.1
        position := x.1.position + t.2
        cachePosition := x.1.contextLen - 1 + t.2 }

/-- The rows of a plain decode step. -/
def prepareDecodeRows (inputs : List DecodeInput) : List TargetRow :=
  inputs.map fun x =>
    { seqId := x.seqId
      inputId := x.inputId
      position := x.position
      cachePosition := x.contextLen - 1 }

/-- The target call writes the KV entries of all its rows. -/
def writeRows (rows : List TargetRow) (kv : ℕ × ℕ → KvEntry) : ℕ × ℕ → KvEntry :=
  updateEach TargetRow.slot (fun row _ => ⟨row.inputId, false⟩) rows kv

/-- The entries that a row attends to: the positions up to its own. -/
def readEntries (kv : ℕ × ℕ → KvEntry) (row : TargetRow) : List KvEntry :=
  (List.range (row.position + 1)).map fun p => kv (row.seqId, p)

variable {S : Type*} [LinearOrder S]

/-- The logits of the rows, once all of them are written. -/
def runModel (target : List ℕ → List S) (rows : List TargetRow) (kv : ℕ × ℕ → KvEntry) : List (List S) :=
  rows.map fun row => target ((readEntries (writeRows rows kv) row).map KvEntry.token)

/-- `lazy_verify_sample` with `all_greedy`: the next token and the number of accepted drafts of every sequence. -/
def lazyVerifySample [OrderBot S] (width : ℕ) (wantLogprobs : Bool) (logits : List (List S))
    (drafts : List (List ℕ)) :
    List (ℕ × ℕ) :=
  List.zipWith (fun rows ds => if wantLogprobs then linearRejectionGreedy rows ds else linearGreedyVerify rows ds)
    (reshape drafts.length width logits) drafts

/-- `build_output_tokens`. -/
def buildOutputTokens (drafts : List (List ℕ)) (verified : List (ℕ × ℕ)) : List (List ℕ) :=
  List.zipWith (fun ds x => outputTokens ds x.2 x.1) drafts verified

/-- The positions of the rejected drafts. -/
def rejectedEntries (inputs : List DecodeInput) (drafts : List (List ℕ))
    (verified : List (ℕ × ℕ)) : List (ℕ × ℕ) :=
  (List.zip inputs (List.zip drafts verified)).flatMap fun x =>
    (List.range (x.2.1.length - x.2.2.2)).map fun j => (x.1.seqId, x.1.contextLen + x.2.2.2 + j)

def markStale (entries : List (ℕ × ℕ)) (kv : ℕ × ℕ → KvEntry) : ℕ × ℕ → KvEntry :=
  fun k => if k ∈ entries then ⟨(kv k).token, true⟩ else kv k

/-- The sequences in decoding, their KV cache and the rows of tokens that the steps returned for them. -/
structure MtpState where
  tokens : ℕ → List ℕ
  kv : ℕ × ℕ → KvEntry
  staleRead : Bool
  emitted : ℕ → List (List ℕ)

namespace MtpState

/-- `prepare_decode_bytes` for one sequence; `context_lens` is the position plus one. -/
def prepareDecode (s : MtpState) (seqId : ℕ) : DecodeInput :=
  { seqId := seqId
    inputId := (s.tokens seqId).getLastD 0
    position := (s.tokens seqId).length - 1
    contextLen := (s.tokens seqId).length - 1 + 1 }

/-- `postprocess` appends to every sequence of the batch its row. -/
def postprocess (s : MtpState) (outs : List (ℕ × List ℕ)) : MtpState :=
  { s with
    tokens := updateEach Prod.fst (fun x tokens => tokens ++ x.2) outs s.tokens
    emitted := updateEach Prod.fst (fun x rows => rows ++ [x.2]) outs s.emitted }

/-- The cache after the target call; `staleRead` notes whether a row read an entry of a rejected draft. -/
def target (s : MtpState) (rows : List TargetRow) : MtpState :=
  { s with
    kv := writeRows rows s.kv
    staleRead := s.staleRead || rows.any fun row => (readEntries (writeRows rows s.kv) row).any KvEntry.stale }

/-- A lazy-verify step: a batch of sequences with their drafts. -/
def verifyStep [OrderBot S] (model : List ℕ → List S) (numDrafts : ℕ) (wantLogprobs : Bool)
    (batch : List (ℕ × List ℕ)) (s : MtpState) : MtpState :=
  let inputs := batch.map fun x => s.prepareDecode x.1
  let drafts := batch.map Prod.snd
  let rows := prepareLazyVerifyDecode inputs drafts
  let verified := lazyVerifySample (numDrafts + 1) wantLogprobs (runModel model rows s.kv) drafts
  let s' := (s.target rows).postprocess (List.zip (batch.map Prod.fst) (buildOutputTokens drafts verified))
  { s' with kv := markStale (rejectedEntries inputs drafts verified) s'.kv }

/-- A plain decode step: one token for every sequence of the batch. -/
def decodeStep (model : List ℕ → List S) (batch : List ℕ) (s : MtpState) : MtpState :=
  let rows := prepareDecodeRows (batch.map s.prepareDecode)
  (s.target rows).postprocess (List.zip batch ((runModel model rows s.kv).map fun row => [argmax row]))

end MtpState

/-- The steps of the decode loop. -/
inductive MtpOp where
  | verify (wantLogprobs : Bool) (batch : List (ℕ × List ℕ))
  | decode (batch : List ℕ)

/-- Decoding from the prompts: the cache holds all tokens of a prompt but the last, which is still pending.  A batch
names a sequence once, and the drafts are a tensor of width `numDrafts`. -/
def mtpSystem [OrderBot S] (model : List ℕ → List S) (numDrafts : ℕ) (prompt : ℕ → List ℕ) :
    System MtpState MtpOp where
  initial s :=
    (∀ id, prompt id ≠ []) ∧ s.tokens = prompt ∧ (∀ id, s.emitted id = []) ∧ s.staleRead = false ∧
      (∀ k, (s.kv k).stale = false) ∧
        ∀ id p, (hp : p + 1 < (prompt id).length) → (s.kv (id, p)).token = (prompt id)[p]
  next s
    | .verify wantLogprobs batch =>
      if (batch.map Prod.fst).Nodup ∧ ∀ x ∈ batch, x.2.length = numDrafts then
        some (s.verifyStep model numDrafts wantLogprobs batch)
      else none
    | .decode batch => if batch.Nodup then some (s.decodeStep model batch) else none

/-- The rows of one sequence: its last token and its drafts, from its last position on. -/
def MtpState.seqRows (s : MtpState) (x : ℕ × List ℕ) : List TargetRow :=
  ((s.tokens x.1).getLastD 0 :: x.2).zipIdx.map fun t =>
    { seqId := x.1
      inputId := t.1
      position := (s.tokens x.1).length - 1 + t.2
      cachePosition := (s.tokens x.1).length - 1 + t.2 }

theorem prepareLazyVerifyDecode_eq (s : MtpState) (batch : List (ℕ × List ℕ)) :
    prepareLazyVerifyDecode (batch.map fun x => s.prepareDecode x.1) (batch.map Prod.snd) =
      batch.flatMap s.seqRows := by
  unfold prepareLazyVerifyDecode
  rw [List.zip_map', List.flatMap_map]
  rfl

/-- What holds of one sequence between two steps. -/
structure MtpSeqInv (model : List ℕ → List S) (prompt tokens : List ℕ) (kv : ℕ → KvEntry)
    (emitted : List (List ℕ)) :
    Prop where
  tokens_ne : tokens ≠ []
  tokens_eq : tokens = prompt ++ emitted.flatten
  greedy : emitted.flatten = greedyTokens model prompt emitted.flatten.length
  rows_ne : ∀ row ∈ emitted, row ≠ []
  kv_eq : ∀ p, (hp : p + 1 < tokens.length) → kv p = ⟨tokens[p], false⟩

/-- `MtpSeqInv` for every sequence, and no stale entry was read. -/
structure MtpInv (model : List ℕ → List S) (prompt : ℕ → List ℕ) (s : MtpState) : Prop where
  seq : ∀ id, MtpSeqInv model (prompt id) (s.tokens id) (fun p => s.kv (id, p)) (s.emitted id)
  fresh : s.staleRead = false

section Step

variable {s : MtpState} {batch : List (ℕ × List ℕ)}

/-- A function that does not look at the token of a row goes over the offsets. -/
theorem map_seqRows {γ : Type*} {x : ℕ × List ℕ} {g : TargetRow → γ} {h : ℕ → γ}
    (hgh : ∀ t i, i ≤ x.2.length →
      g ⟨x.1, t, (s.tokens x.1).length - 1 + i, (s.tokens x.1).length - 1 + i⟩ = h i) :
    (s.seqRows x).map g = (List.range (x.2.length + 1)).map h := by
  have hsnd := List.zipIdx_map_snd 0 ((s.tokens x.1).getLastD 0 :: x.2)
  rw [← List.range_eq_range', List.length_cons] at hsnd
  unfold MtpState.seqRows
  rw [← hsnd, List.map_map, List.map_map]
  refine List.map_congr_left fun t ht => hgh t.1 t.2 ?_
  have hlt : t.2 ∈ List.range (x.2.length + 1) := hsnd ▸ List.mem_map_of_mem ht
  exact Nat.le_of_lt_succ (List.mem_range.1 hlt)

theorem slots_seqRows (x : ℕ × List ℕ) :
    (s.seqRows x).map TargetRow.slot =
      (List.range (x.2.length + 1)).map fun i => (x.1, (s.tokens x.1).length - 1 + i) :=
  map_seqRows fun _ _ _ => rfl

theorem mem_slots {k : ℕ × ℕ} : k ∈ (batch.flatMap s.seqRows).map TargetRow.slot ↔
    ∃ x ∈ batch, ∃ i ≤ x.2.length, k = (x.1, (s.tokens x.1).length - 1 + i) := by
  simp only [List.map_flatMap, slots_seqRows, List.mem_flatMap, List.mem_map, List.mem_range, Nat.lt_succ_iff,
    eq_comm (a := k)]

theorem nodup_slots (hids : (batch.map Prod.fst).Nodup) : ((batch.flatMap s.seqRows).map TargetRow.slot).Nodup := by
  simp only [List.map_flatMap, slots_seqRows, List.nodup_flatMap]
  refine ⟨fun x _ => ?_, (List.pairwise_map.1 hids).imp fun {x y} hxy => ?_⟩
  · exact List.nodup_range.map fun i j hij => by simpa using hij
  · intro k hkx hky
    obtain ⟨_, _, rfl⟩ := List.mem_map.1 hkx
    obtain ⟨_, _, hk⟩ := List.mem_map.1 hky
    exact hxy (congrArg Prod.fst hk).symm

/-- The sequences of the batch are distinct, so the sequence determines its drafts. -/
theorem eq_of_mem_batch (hids : (batch.map Prod.fst).Nodup) {x y : ℕ × List ℕ}
    (hx : x ∈ batch) (hy : y ∈ batch) (hxy : x.1 = y.1) : x = y :=
  List.inj_on_of_nodup_map hids hx hy hxy

variable {model : List ℕ → List S} {prompt : ℕ → List ℕ}

/-- A sequence outside of the batch keeps its entries. -/
theorem writeRows_of_notMem {id : ℕ} (hid : id ∉ batch.map Prod.fst) (p : ℕ) :
    writeRows (batch.flatMap s.seqRows) s.kv (id, p) = s.kv (id, p) := by
  refine updateEach_of_notMem (fun hmem => ?_) _
  obtain ⟨x, hx, i, -, hk⟩ := mem_slots.1 hmem
  obtain rfl : id = x.1 := congrArg Prod.fst hk
  exact hid (List.mem_map_of_mem hx)

/-- After the writes a sequence of the batch has its tokens and its drafts in the cache, and none of them is stale. -/
theorem writeRows_of_mem (hids : (batch.map Prod.fst).Nodup) (hinv : MtpInv model prompt s) {x : ℕ × List ℕ}
    (hx : x ∈ batch) {p : ℕ} (hp : p < (s.tokens x.1 ++ x.2).length) :
    writeRows (batch.flatMap s.seqRows) s.kv (x.1, p) = ⟨(s.tokens x.1 ++ x.2)[p], false⟩ := by
  obtain ⟨hne, -, -, -, hkv⟩ := hinv.seq x.1
  have hpos := List.length_pos_iff.2 hne
  rw [List.length_append] at hp
  by_cases hlt : p + 1 < (s.tokens x.1).length
  · -- before the last token nothing is written
    have hold : writeRows (batch.flatMap s.seqRows) s.kv (x.1, p) = s.kv (x.1, p) := by
      refine updateEach_of_notMem (fun hmem => ?_) _
      obtain ⟨y, -, i, -, hk⟩ := mem_slots.1 hmem
      obtain ⟨hxy, hpi⟩ := Prod.ext_iff.1 hk
      dsimp only at hxy hpi
      rw [← hxy] at hpi
      omega
    rw [hold, List.getElem_append_left (by omega)]
    exact hkv p hlt
  · -- the last token and the drafts are written by the rows of the sequence
    obtain ⟨i, rfl⟩ : ∃ i, p = (s.tokens x.1).length - 1 + i := Nat.exists_eq_add_of_le (by omega)
    have hi : i < ((s.tokens x.1).getLastD 0 :: x.2).length := by
      simp only [List.length_cons]
      omega
    have hrow : (⟨x.1, ((s.tokens x.1).getLastD 0 :: x.2)[i], (s.tokens x.1).length - 1 + i,
        (s.tokens x.1).length - 1 + i⟩ : TargetRow) ∈ batch.flatMap s.seqRows :=
      List.mem_flatMap.2 ⟨x, hx, List.mem_map.2 ⟨(((s.tokens x.1).getLastD 0 :: x.2)[i], i),
        List.mk_mem_zipIdx_iff_getElem?.2 (List.getElem?_eq_getElem hi), rfl⟩⟩
    have hwrite := updateEach_of_mem (g := fun row _ => ⟨row.inputId, false⟩) (nodup_slots hids) hrow s.kv
    refine hwrite.trans (congrArg (fun t => KvEntry.mk t false) ?_)
    dsimp only
    -- row `0` writes the last token, row `i + 1` the draft `i`
    cases i with
    | zero =>
      rw [List.getElem_append_left (by omega)]
      simp only [List.getElem_cons_zero, List.getLastD_eq_getLast?, List.getLast?_eq_getElem?, Nat.add_zero]
      rw [List.getElem?_eq_getElem (by omega), Option.getD_some]
    | succ i =>
      rw [List.getElem_append_right (by omega)]
      simp only [List.getElem_cons_succ]
      congr 1
      omega

/-- A row reads the tokens of its sequence and the drafts up to its own. -/
theorem readEntries_eq (hids : (batch.map Prod.fst).Nodup) (hinv : MtpInv model prompt s) {x : ℕ × List ℕ}
    (hx : x ∈ batch) {t i cachePosition : ℕ} (hi : i ≤ x.2.length) :
    readEntries (writeRows (batch.flatMap s.seqRows) s.kv)
        ⟨x.1, t, (s.tokens x.1).length - 1 + i, cachePosition⟩ =
      (s.tokens x.1 ++ x.2.take i).map fun token => ⟨token, false⟩ := by
  have hpos := List.length_pos_iff.2 (hinv.seq x.1).tokens_ne
  unfold readEntries
  refine List.ext_getElem (by simp; omega) fun p hp₁ hp₂ => ?_
  simp only [List.length_map, List.length_range] at hp₁
  have hp : p < (s.tokens x.1 ++ x.2).length := by
    rw [List.length_append]
    omega
  simp only [List.getElem_map, List.getElem_range]
  rw [writeRows_of_mem hids hinv hx hp]
  congr 1
  by_cases hlt : p < (s.tokens x.1).length
  · rw [List.getElem_append_left hlt, List.getElem_append_left hlt]
  · rw [List.getElem_append_right (by omega), List.getElem_append_right (by omega), List.getElem_take]

theorem runModel_eq (hids : (batch.map Prod.fst).Nodup) (hinv : MtpInv model prompt s) :
    runModel model (batch.flatMap s.seqRows) s.kv = batch.flatMap fun x => verifyRows model (s.tokens x.1) x.2 := by
  unfold runModel
  rw [List.map_flatMap]
  refine List.flatMap_congr fun x hx => map_seqRows fun t i hi => ?_
  rw [readEntries_eq hids hinv hx hi, List.map_map]
  simp [Function.comp_def]

/-- The number of drafts of `x` that the target accepts. -/
def MtpState.acceptedOf (model : List ℕ → List S) (s : MtpState) (x : ℕ × List ℕ) : ℕ :=
  greedyAccepted (verifyRows model (s.tokens x.1) x.2) x.2

/-- What the step returns for `x`. -/
def MtpState.rowOf (model : List ℕ → List S) (s : MtpState) (x : ℕ × List ℕ) : List ℕ :=
  greedyTokens model (s.tokens x.1) (s.acceptedOf model x + 1)

theorem lazyVerifySample_eq [OrderBot S] {numDrafts : ℕ} (hwidth : ∀ x ∈ batch, x.2.length = numDrafts)
    (wantLogprobs : Bool) :
    lazyVerifySample (numDrafts + 1) wantLogprobs (batch.flatMap fun x => verifyRows model (s.tokens x.1) x.2)
        (batch.map Prod.snd) =
      batch.map fun x => linearGreedyVerify (verifyRows model (s.tokens x.1) x.2) x.2 := by
  unfold lazyVerifySample
  rw [List.length_map, reshape_flatMap fun x hx => by rw [length_verifyRows, hwidth x hx], List.zipWith_map,
    List.zipWith_self]
  refine List.map_congr_left fun x _ => ?_
  cases wantLogprobs with
  | true => exact linearRejectionGreedy_eq (length_verifyRows _ _ _)
  | false => rfl

/-- The step in closed form: greedy tokens for every sequence, and the rejected drafts marked. -/
theorem verifyStep_eq [OrderBot S] {numDrafts : ℕ} (hids : (batch.map Prod.fst).Nodup) (hinv : MtpInv model prompt s)
    (hwidth : ∀ x ∈ batch, x.2.length = numDrafts) (wantLogprobs : Bool) :
    s.verifyStep model numDrafts wantLogprobs batch =
      { tokens := updateEach Prod.fst (fun x tokens => tokens ++ s.rowOf model x) batch s.tokens
        kv := markStale
          (batch.flatMap fun x => (List.range (x.2.length - s.acceptedOf model x)).map fun j =>
            (x.1, (s.tokens x.1).length - 1 + 1 + s.acceptedOf model x + j))
          (writeRows (batch.flatMap s.seqRows) s.kv)
        staleRead := s.staleRead || (batch.flatMap s.seqRows).any fun row =>
          (readEntries (writeRows (batch.flatMap s.seqRows) s.kv) row).any KvEntry.stale
        emitted := updateEach Prod.fst (fun x rows => rows ++ [s.rowOf model x]) batch s.emitted } := by
  unfold MtpState.verifyStep
  simp only [prepareLazyVerifyDecode_eq, runModel_eq hids hinv, lazyVerifySample_eq hwidth, buildOutputTokens,
    rejectedEntries, List.zipWith_map, List.zipWith_self, List.zip_map', outputTokens_linearGreedyVerify,
    List.flatMap_map, MtpState.postprocess, MtpState.target, updateEach_map]
  rfl

theorem acceptedOf_le (model : List ℕ → List S) (s : MtpState) (x : ℕ × List ℕ) :
    s.acceptedOf model x ≤ x.2.length := greedyAccepted_le _ _

theorem rowOf_eq (model : List ℕ → List S) (s : MtpState) (x : ℕ × List ℕ) :
    ∃ next, s.rowOf model x = x.2.take (s.acceptedOf model x) ++ [next] :=
  ⟨_, (outputTokens_linearGreedyVerify model (s.tokens x.1) x.2).symm⟩

/-- The appended row starts with the accepted drafts. -/
theorem getElem_append_rowOf {x : ℕ × List ℕ} {q : ℕ} (hq : q < (s.tokens x.1).length + s.acceptedOf model x)
    (h₁ : q < (s.tokens x.1 ++ x.2).length) (h₂ : q < (s.tokens x.1 ++ s.rowOf model x).length) :
    (s.tokens x.1 ++ x.2)[q] = (s.tokens x.1 ++ s.rowOf model x)[q] := by
  have hle := acceptedOf_le model s x
  obtain ⟨next, hnext⟩ := rowOf_eq model s x
  simp only [hnext]
  by_cases hlt : q < (s.tokens x.1).length
  · rw [List.getElem_append_left hlt, List.getElem_append_left hlt]
  · rw [List.getElem_append_right (by omega), List.getElem_append_right (by omega),
      List.getElem_append_left (by rw [List.length_take]; omega), List.getElem_take]

/-- Greedy tokens appended to a greedy sequence. -/
theorem MtpSeqInv.append {p tokens row : List ℕ} {kv kv' : ℕ → KvEntry} {emitted : List (List ℕ)} {n : ℕ}
    (hinv : MtpSeqInv model p tokens kv emitted) (hrow : row = greedyTokens model tokens (n + 1))
    (hkv : ∀ q, (hq : q + 1 < (tokens ++ row).length) → kv' q = ⟨(tokens ++ row)[q], false⟩) :
    MtpSeqInv model p (tokens ++ row) kv' (emitted ++ [row]) where
  tokens_ne := by simp [hinv.tokens_ne]
  tokens_eq := by
    rw [List.flatten_append, List.flatten_singleton, ← List.append_assoc, ← hinv.tokens_eq]
  greedy := by
    have hlen : row.length = n + 1 := by rw [hrow, length_greedyTokens]
    have hsplit := greedyTokens_add model p emitted.flatten.length (n + 1)
    rw [← hinv.greedy, ← hinv.tokens_eq, ← hrow] at hsplit
    rw [List.flatten_append, List.flatten_singleton, List.length_append, hlen, hsplit]
  rows_ne := by
    intro r hr
    rcases List.mem_append.1 hr with hr | hr
    · exact hinv.rows_ne r hr
    · rw [List.mem_singleton.1 hr, hrow]
      exact List.cons_ne_nil _ _
  kv_eq := hkv

/-- One verification keeps the invariant, whatever the drafts are. -/
theorem MtpInv.verifyStep [OrderBot S] {numDrafts : ℕ} (hinv : MtpInv model prompt s)
    (hids : (batch.map Prod.fst).Nodup) (hwidth : ∀ x ∈ batch, x.2.length = numDrafts) (wantLogprobs : Bool) :
    MtpInv model prompt (s.verifyStep model numDrafts wantLogprobs batch) := by
  rw [verifyStep_eq hids hinv hwidth]
  -- the marked entries lie behind the tokens of their sequence
  have hmark : ∀ id q, (id, q) ∈ (batch.flatMap fun y =>
      (List.range (y.2.length - s.acceptedOf model y)).map fun j =>
        (y.1, (s.tokens y.1).length - 1 + 1 + s.acceptedOf model y + j)) →
      ∃ y ∈ batch, y.1 = id ∧ (s.tokens y.1).length + s.acceptedOf model y ≤ q := by
    intro id q hmem
    obtain ⟨y, hy, hmem⟩ := List.mem_flatMap.1 hmem
    obtain ⟨j, -, hj⟩ := List.mem_map.1 hmem
    obtain ⟨hid, hq⟩ := Prod.ext_iff.1 hj
    dsimp only at hid hq
    exact ⟨y, hy, hid, by omega⟩
  refine ⟨fun id => ?_, ?_⟩
  · dsimp only
    by_cases hid : id ∈ batch.map Prod.fst
    · obtain ⟨x, hx, rfl⟩ := List.mem_map.1 hid
      have hle := acceptedOf_le model s x
      rw [updateEach_of_mem hids hx, updateEach_of_mem hids hx]
      refine (hinv.seq x.1).append rfl fun q hq => ?_
      have hlen : q < (s.tokens x.1).length + s.acceptedOf model x := by
        rw [List.length_append, MtpState.rowOf, length_greedyTokens] at hq
        omega
      rw [markStale, if_neg, writeRows_of_mem hids hinv hx (by rw [List.length_append]; omega),
        getElem_append_rowOf hlen]
      intro hmem
      obtain ⟨y, hy, hyx, hyq⟩ := hmark _ _ hmem
      obtain rfl := List.inj_on_of_nodup_map hids hy hx hyx
      omega
    · rw [updateEach_of_notMem hid, updateEach_of_notMem hid]
      obtain ⟨h₁, h₂, h₃, h₄, hkv⟩ := hinv.seq id
      refine ⟨h₁, h₂, h₃, h₄, fun p hp => ?_⟩
      rw [markStale, if_neg, writeRows_of_notMem hid]
      · exact hkv p hp
      · intro hmem
        obtain ⟨y, hy, rfl, -⟩ := hmark _ _ hmem
        exact hid (List.mem_map_of_mem hy)
  · -- every row reads tokens and drafts that were written
    dsimp only
    rw [hinv.fresh, Bool.false_or, List.any_eq_false]
    intro row hrow
    obtain ⟨x, hx, hrow⟩ := List.mem_flatMap.1 hrow
    obtain ⟨t, ht, rfl⟩ := List.mem_map.1 hrow
    have hi : t.2 ≤ x.2.length := by
      have := List.snd_lt_of_mem_zipIdx ht
      simp only [List.length_cons] at this
      omega
    rw [readEntries_eq hids hinv hx hi, List.any_map]
    simp [Function.comp_def]

/-- A plain step is a verification without drafts. -/
theorem decodeStep_eq_verifyStep [OrderBot S] (batch : List ℕ) :
    s.decodeStep model batch = s.verifyStep model 0 false (batch.map fun id => (id, [])) := by
  have hrows : prepareLazyVerifyDecode (batch.map fun id => s.prepareDecode id) (batch.map fun _ => []) =
      prepareDecodeRows (batch.map s.prepareDecode) := by
    unfold prepareLazyVerifyDecode prepareDecodeRows
    rw [List.zip_map', List.flatMap_map, List.map_map, List.map_eq_flatMap]
    rfl
  have hverified : ∀ logit : ℕ → List S, lazyVerifySample 1 false (batch.map logit) (batch.map fun _ => []) =
      batch.map fun id => (argmax (logit id), 0) := by
    intro logit
    unfold lazyVerifySample
    have hone : ∀ id ∈ batch, [logit id].length = 1 := fun _ _ => rfl
    rw [List.length_map, List.map_eq_flatMap (f := logit), reshape_flatMap hone, List.zipWith_map, List.zipWith_self]
    rfl
  have hmark : ∀ kv, markStale (batch.flatMap fun _ => []) kv = kv := by
    intro kv
    funext k
    simp [markStale]
  have hzip : ∀ out : ℕ → List ℕ, List.zip batch (batch.map out) = batch.map fun id => (id, out id) := by
    intro out
    simpa using List.zip_map' (f := id) (g := out) (l := batch)
  unfold MtpState.decodeStep MtpState.verifyStep
  simp only [List.map_map, Function.comp_def, hrows]
  simp only [runModel, prepareDecodeRows, List.map_map, Function.comp_def, hverified,
    buildOutputTokens, rejectedEntries,
    List.zipWith_map, List.zipWith_self, List.zip_map', List.flatMap_map, outputTokens, List.length_nil, Nat.sub_zero,
    List.range_zero, List.map_nil, List.take_nil, List.nil_append, hmark, hzip]

end Step

section Run

variable [OrderBot S] {model : List ℕ → List S} {numDrafts : ℕ} {prompt : ℕ → List ℕ}

theorem invariant_mtpSystem : Invariant (mtpSystem model numDrafts prompt) always (MtpInv model prompt) where
  initial s := by
    rintro ⟨hprompt, htokens, hemitted, hfresh, hstale, hkv⟩
    refine ⟨fun id => ?_, hfresh⟩
    rw [htokens, hemitted]
    refine ⟨hprompt id, by simp, by simp [greedyTokens], by simp, fun p hp => ?_⟩
    rw [← hkv id p hp, ← hstale (id, p)]
  next s op s' hinv _ hnext := by
    cases op with
    | verify wantLogprobs batch =>
      simp only [mtpSystem] at hnext
      split_ifs at hnext with hbatch
      cases hnext
      exact hinv.verifyStep hbatch.1 hbatch.2 wantLogprobs
    | decode batch =>
      simp only [mtpSystem] at hnext
      split_ifs at hnext with hbatch
      cases hnext
      rw [decodeStep_eq_verifyStep]
      refine hinv.verifyStep ?_ ?_ false
      · simpa [Function.comp_def] using hbatch
      · simp

/-- Whatever the drafts and however the steps are mixed, a run emits the tokens that one-token-at-a-time decoding gives,
at least one a step, and never reads an entry that a rejected draft left behind. -/
theorem emitted_greedy {s : MtpState} (hs : Reachable (mtpSystem model numDrafts prompt) always s) :
    (∀ id n, (s.emitted id).flatten.length ≤ n → (s.emitted id).flatten <+: greedyTokens model (prompt id) n) ∧
      (∀ id, ∀ row ∈ s.emitted id, row ≠ []) ∧ s.staleRead = false := by
  have hinv := invariant_mtpSystem.holds hs
  refine ⟨fun id n hn => ?_, fun id => (hinv.seq id).rows_ne, hinv.fresh⟩
  obtain ⟨m, rfl⟩ := Nat.exists_eq_add_of_le hn
  rw [greedyTokens_add, ← (hinv.seq id).greedy]
  exact List.prefix_append _ _

end Run

/-- A target over three tokens that chooses by the length of the context. -/
def countingModel (ctx : List ℕ) : List ℕ := (List.range 3).map fun t => if t = ctx.length % 3 then 1 else 0

/-- One draft accepted, a plain step, then both drafts accepted. -/
theorem emitted_greedy_counting : ∃ s : MtpState,
    Reachable (mtpSystem countingModel 2 fun _ => [0, 0]) always s ∧ s.emitted 0 = [[2, 0], [1], [2, 0, 1]] ∧
      [2, 0, 1, 2, 0, 1] <+: greedyTokens countingModel [0, 0] 7 ∧ s.staleRead = false := by
  obtain ⟨s, hs, hemitted⟩ := Reachable.exists_of_run (T := mtpSystem countingModel 2 fun _ => [0, 0]) (G := always)
    (P := fun s : MtpState => decide (s.emitted 0 = [[2, 0], [1], [2, 0, 1]]))
    (s := ⟨fun _ => [0, 0], fun _ => ⟨0, false⟩, false, fun _ => []⟩)
    [.verify false [(0, [2, 2])], .decode [0], .verify true [(0, [2, 0])]]
    ⟨by simp, rfl, by simp, rfl, by simp, fun _ p hp => by
      obtain rfl : p = 0 := Nat.lt_one_iff.1 (Nat.lt_of_succ_lt_succ hp)
      rfl⟩ (by decide +kernel)
  have hrows : s.emitted 0 = [[2, 0], [1], [2, 0, 1]] := of_decide_eq_true hemitted
  obtain ⟨hgreedy, -, hfresh⟩ := emitted_greedy hs
  have hseven := hgreedy 0 7
  rw [hrows] at hseven
  exact ⟨s, hs, hrows, hseven (by decide), hfresh⟩

end NanoEngine
