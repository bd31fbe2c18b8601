import NanoEngine.Queues.Engine
import NanoEngine.Streams.Postprocess

/-!
# NanoEngine.Streams.Main — what is streamed is what was generated

* `emitted outs id`: the tokens of the step outputs of `id`.
* `Streams`: a ghost that records, for every id since it was added, the tokens it came with and the tokens streamed.
* `streamGuard`: every sequence of a step's result is listed once and gets a token, or `_event_token_ids` has no reason
  to fall back to its last token.
* `streams_conserved`: under the guard the tokens of a sequence are those it came with and those streamed.
-/

namespace NanoEngine

open Scheduler Transition

/-! ## The step outputs of one sequence -/

def emitted (outs : List StepOut) (seqId : ℕ) : List ℤ :=
  (outs.filter (fun out => decide (out.seqId = seqId))).flatMap (·.tokenIds)

theorem emitted_append (outs outs' : List StepOut) (seqId : ℕ) :
    emitted (outs ++ outs') seqId = emitted outs seqId ++ emitted outs' seqId := by
  unfold emitted
  rw [List.filter_append, List.flatMap_append]

/-- What the backend loop streams for one event. -/
theorem emitted_stepOutOf (event : SequenceEvent) (seqId : ℕ) :
    emitted (stepOutOf event) seqId =
      if event.seqId = seqId ∧ (event.isFinished = true ∨ event.isToBeMigrated = false)
        then eventTokenIds event else [] := by
  unfold emitted stepOutOf
  by_cases hfin : event.isFinished = true
  · by_cases hid : event.seqId = seqId <;> simp [hfin, hid]
  · by_cases hmig : event.isToBeMigrated = true
    · simp [hfin, hmig]
    · by_cases htok : eventTokenIds event = []
      · simp [hfin, hmig, htok]
      · by_cases hid : event.seqId = seqId <;> simp [hfin, hmig, htok, hid]

namespace Scheduler

variable {s : Scheduler} {seqId : ℕ} {a : Sequence}

/-- Ids that are not listed, dummies and unknown ids are not reported. -/
theorem emitted_unlisted (track : Bool) (previous : Finset ℕ) (ids : List ℕ) (s : Scheduler)
    (h : seqId ∉ ids ∨ seqId ∈ s.dummySeqIds ∨ s.seqTable seqId = none) :
    emitted ((collectSequenceEvents track previous ids s).1.flatMap stepOutOf) seqId = [] := by
  induction ids generalizing s with
  | nil => rfl
  | cons id ids ih =>
    unfold collectSequenceEvents
    have htail : seqId ∉ ids ∨ seqId ∈ s.dummySeqIds ∨ s.seqTable seqId = none := by
      rcases h with h | h
      · exact .inl fun hmem => h (List.mem_cons_of_mem _ hmem)
      · exact .inr h
    split
    · exact ih s htail
    case isFalse hdummy =>
      split
      · exact ih s htail
      case h_2 seq hseq =>
        have hne : id ≠ seqId := by
          rintro rfl
          rcases h with h | h | h
          · exact h List.mem_cons_self
          · exact hdummy h
          · rw [h] at hseq
            cases hseq
        rw [List.flatMap_cons, emitted_append, emitted_stepOutOf, if_neg fun h => hne h.1, List.nil_append]
        refine ih _ (htail.imp_right (Or.imp_right fun hnone => ?_))
        simp [updateSeq, Function.update_of_ne (Ne.symm hne), hnone]

/-- The one report of a sequence that is listed once. -/
theorem emitted_listed (track : Bool) (previous : Finset ℕ) (ids : List ℕ) (hdummy : seqId ∉ s.dummySeqIds)
    (ha : s.seqTable seqId = some a) (hcount : ids.count seqId = 1) :
    emitted ((collectSequenceEvents track previous ids s).1.flatMap stepOutOf) seqId =
      if a.status = .finished ∨ a.status ≠ .toBeMigrated then
        eventTokenIds (s.sequenceEvent seqId a track previous) else [] := by
  induction ids generalizing s with
  | nil => simp at hcount
  | cons id ids ih =>
    unfold collectSequenceEvents
    by_cases hid : id = seqId
    · subst hid
      rw [List.count_cons_self] at hcount
      have hnot : id ∉ ids := List.count_eq_zero.1 (by omega)
      rw [if_neg hdummy, ha]
      dsimp only
      rw [List.flatMap_cons, emitted_append, emitted_unlisted _ _ _ _ (.inl hnot), List.append_nil, emitted_stepOutOf]
      simp [sequenceEvent]
    · rw [List.count_cons_of_ne (by simpa using hid)] at hcount
      split
      · exact ih hdummy ha hcount
      · split
        · exact ih hdummy ha hcount
        case h_2 seq hseq =>
          rw [List.flatMap_cons, emitted_append, emitted_stepOutOf, if_neg fun h => hid h.1, List.nil_append]
          refine ih (s := s.updateSeq id (fun seq => { seq with visionSlots := [] })) hdummy ?_ hcount
          simp [updateSeq, Function.update_of_ne (Ne.symm hid), ha]

/-- With tokens recorded, or without a reason for the fallback, exactly the record is streamed. -/
theorem eventTokenIds_eq {track : Bool} {previous : Finset ℕ}
    (h : (s.lastStepTokenIds seqId).getD [] ≠ [] ∨
      (track && decide (seqId ∉ previous)) = true ∨ a.numTokens ≤ 0) :
    eventTokenIds (s.sequenceEvent seqId a track previous) = (s.lastStepTokenIds seqId).getD [] := by
  unfold eventTokenIds sequenceEvent
  dsimp only
  split
  · rfl
  case isFalse hnil =>
    simp only [ne_eq, not_not] at hnil
    rw [hnil] at h ⊢
    rcases h with h | h | h
    · exact absurd rfl h
    · rw [if_pos h]
    · split
      · rfl
      · rw [if_neg (by omega)]

/-! ## One step -/

/-- The sequences of the filtered groups are those of the result. -/
theorem makeScheduleResult_filtered {dpSeqIds : List (List ℕ)} {isPrefill : Bool}
    (h : seqId ∈ (s.makeScheduleResult dpSeqIds isPrefill).filteredDpGroupSeqIds.flatten) :
      seqId ∈ dpSeqIds.flatten := by
  simp only [makeScheduleResult, List.mem_flatten, List.mem_flatMap, List.mem_map] at h
  obtain ⟨ids, ⟨d, -, gid, -, rfl⟩, hmem⟩ := h
  have hrank := List.mem_of_mem_filter hmem
  by_cases hd : d < dpSeqIds.length
  · rw [List.getD_eq_getElem?_getD, List.getElem?_eq_getElem hd, Option.getD_some] at hrank
    exact List.mem_flatten.2 ⟨_, List.getElem_mem hd, hrank⟩
  · rw [List.getD_eq_getElem?_getD, List.getElem?_eq_none (by omega)] at hrank
    cases hrank

theorem schedule_filtered [Xxh3] {s' : Scheduler} {r : ScheduleResult} (h : s.schedule = (.ok r, s'))
    (hmem : seqId ∈ r.filteredDpGroupSeqIds.flatten) : seqId ∈ r.dpSeqIds.flatten := by
  unfold schedule at h
  split at h
  case h_1 => cases h
  case h_2 =>
    split at h <;> cases h <;> exact makeScheduleResult_filtered hmem

/-- Reporting sequence `seqId` with entry `seq` streams what was appended to it: it is listed once, and gets a token
unless it is newly running or empty. -/
def streamsSequence (s : Scheduler) (r : ScheduleResult) (rows : List (List (List ℤ))) (isNew : Bool) (seqId : ℕ)
    (seq : Sequence) : Bool :=
  decide (r.dpSeqIds.flatten.count seqId = 1) &&
    if s.isKvOnly r then
      decide ((s.lastStepTokenIds seqId).getD [] = []) && (isNew || decide (seq.numTokens ≤ 0))
    else
      decide (r.filteredDpGroupSeqIds.flatten.count seqId ≤ 1) &&
        (isNew || decide (seq.numTokens ≤ 0) || s.getsToken seq (rowOf seqId r.filteredDpGroupSeqIds rows))

/-- All sequences of a result are reported so, when the batch is serialized in `s`. -/
def streamsResult (s : Scheduler) (r : ScheduleResult) (rows : List (List (List ℤ))) (previous : Finset ℕ) : Bool :=
  r.dpSeqIds.flatten.all fun seqId => decide (seqId ∈ s.dummySeqIds) ||
    match s.seqTable seqId with
    | none => true
    | some seq =>
      s.streamsSequence r rows (decide (s.config.mode = .decode) && decide (seqId ∉ previous)) seqId seq

variable [Xxh3]

/-- **A step streams what it appends**, for a sequence that it reports as `streamsResult` says. -/
theorem runScheduled_emitted {r : ScheduleResult} {rows : List (List (List ℤ))} {previous : Finset ℕ}
    (logprobs : List (List (List ℚ))) (hmode : s.config.mode ≠ .prefill) (hdummy : seqId ∉ s.dummySeqIds)
    (ha : s.seqTable seqId = some a) (hsub : seqId ∈ r.filteredDpGroupSeqIds.flatten → seqId ∈ r.dpSeqIds.flatten)
    (hsafe : s.streamsResult r rows previous = true) :
    ∃ b, (s.runScheduled r rows logprobs).seqTable seqId = some b ∧
      b.tokenIds = a.tokenIds ++ emitted ((collectSequenceEvents (decide (s.config.mode = .decode)) previous
        r.dpSeqIds.flatten (s.runScheduled r rows logprobs)).1.flatMap stepOutOf) seqId := by
  obtain ⟨hconfig, hdummies⟩ := postprocessImpl_config s r.filteredDpGroupSeqIds rows logprobs
  by_cases hlisted : seqId ∈ r.dpSeqIds.flatten
  · have hseq := List.all_eq_true.1 hsafe seqId hlisted
    rw [decide_eq_false hdummy, Bool.false_or, ha] at hseq
    dsimp only at hseq
    unfold streamsSequence at hseq
    rw [Bool.and_eq_true, decide_eq_true_eq] at hseq
    obtain ⟨hcount, hseq⟩ := hseq
    unfold runScheduled
    split
    case isTrue hkv =>
      -- nothing is postprocessed: nothing is appended, nothing may be streamed
      rw [if_pos hkv, Bool.and_eq_true, decide_eq_true_eq, Bool.or_eq_true] at hseq
      obtain ⟨hnil, hnew⟩ := hseq
      refine ⟨a, ha, ?_⟩
      rw [emitted_listed _ _ _ hdummy ha hcount]
      split
      · rw [eventTokenIds_eq (.inr (hnew.imp_right of_decide_eq_true)), hnil, List.append_nil]
      · rw [List.append_nil]
    case isFalse hkv =>
      rw [if_neg hkv, Bool.and_eq_true, decide_eq_true_eq, Bool.or_eq_true, Bool.or_eq_true] at hseq
      obtain ⟨hcount', hreason⟩ := hseq
      have hvis := postprocessImpl_visited r.filteredDpGroupSeqIds rows logprobs hmode hdummy ha hcount'
      obtain ⟨b, hb, htokens, hsame, hstatus⟩ := hvis.entry
      refine ⟨b, hb, ?_⟩
      rw [emitted_listed _ _ _ (by rwa [hdummies]) hb hcount]
      by_cases hnil : ((s.postprocessImpl r.filteredDpGroupSeqIds rows logprobs).lastStepTokenIds seqId).getD [] = []
      · have hfallback : (decide (s.config.mode = .decode) && decide (seqId ∉ previous)) = true ∨
          b.numTokens ≤ 0 := by
          rcases hreason with (hnew | hempty) | hgets
          · exact .inl hnew
          · exact .inr (by rw [hsame hnil]; exact of_decide_eq_true hempty)
          · exact absurd hnil (hvis.token hgets)
        rw [htokens]
        split
        · rw [eventTokenIds_eq (.inr hfallback)]
        · rw [hnil]
      · rw [htokens, if_pos (.inr (hstatus hnil)), eventTokenIds_eq (.inl hnil)]
  · unfold runScheduled
    split
    case isTrue => exact ⟨a, ha, by rw [emitted_unlisted _ _ _ _ (.inl hlisted), List.append_nil]⟩
    case isFalse =>
      obtain ⟨ht, -⟩ := postprocessImpl_unlisted r.filteredDpGroupSeqIds rows logprobs s fun h => hlisted (hsub h)
      exact ⟨a, ht.trans ha, by rw [emitted_unlisted _ _ _ _ (.inl hlisted), List.append_nil]⟩

end Scheduler

/-! ## Runs -/

/-- For every id since it was added last: the tokens it came with, and the tokens put into step outputs. -/
structure Streams where
  arrived : ℕ → Option (List ℤ)
  streamed : ℕ → List ℤ

namespace Streams

def init : Streams := ⟨fun _ => none, fun _ => []⟩

def add (g : Streams) (seqId : ℕ) (tokens : List ℤ) : Streams where
  arrived := Function.update g.arrived seqId (some tokens)
  streamed := Function.update g.streamed seqId []

variable [Xxh3]

/-- A step appends its step outputs to the streams. -/
def follow (x : EngineState) (op : EngineOp) (_ : EngineState) (g : Streams) : Streams :=
  match op with
  | .addRequest request => g.add request.seqId request.promptTokenIds
  | .addMigrated request => g.add request.seqId request.tokenIds
  | .step rows logprobs =>
    { g with streamed := fun seqId => g.streamed seqId ++ emitted ((x.report rows logprobs).1.flatMap stepOutOf) seqId }
  | _ => g

end Streams

section runs

variable [Xxh3]

/-- The engine with the record of its streams. -/
def streamSystem (config : SchedulerConfig) : System (EngineState × Streams) EngineOp :=
  (engineSystem config).ghost Streams.init Streams.follow

/-- Every sequence of the step's result is reported as `streamsResult` says. -/
def streamGuard : EngineState × Streams → EngineOp → Bool
  | (x, _), .step rows _ =>
    match x.sched.schedule with
    | (.error _, _) => true
    | (.ok r, s) => (s.completeSwaps r).streamsResult r rows x.previousRunning
  | _, _ => true

structure StreamInv (config : SchedulerConfig) (p : EngineState × Streams) : Prop where
  config : p.1.sched.config = config
  dummies : ∀ id ∈ p.1.sched.dummySeqIds, p.1.sched.isReservedId id = true
  fresh : ∀ id tokens, p.2.arrived id = some tokens → p.1.sched.isReservedId id = false
  streams : ∀ id tokens, p.2.arrived id = some tokens →
    ∃ seq, p.1.sched.seqTable id = some seq ∧ seq.tokenIds = tokens ++ p.2.streamed id

namespace StreamInv

variable {config : SchedulerConfig} {x : EngineState} {g : Streams}

omit [Xxh3] in
theorem add {x' : EngineState} {seq : Sequence} (h : StreamInv config (x, g)) (hx : x.add seq = some x') :
    StreamInv config (x', g.add seq.seqId seq.tokenIds) := by
  unfold EngineState.add at hx
  split at hx
  case isTrue => cases hx
  case isFalse hfree =>
    simp only [Bool.or_eq_true, not_or, Bool.not_eq_true] at hfree
    cases hx
    have hadd := addSequence_spec x.sched seq
    refine ⟨hadd.config.trans h.config, fun id hid => ?_, fun id tokens hid => ?_, fun id tokens hid => ?_⟩
    · rw [isReservedId_congr hadd.config]
      exact h.dummies id (hadd.dummySeqIds ▸ hid)
    · rw [isReservedId_congr hadd.config]
      by_cases hne : id = seq.seqId
      · rw [hne]
        exact hfree.2
      · unfold Streams.add at hid
        dsimp only at hid
        rw [Function.update_of_ne hne] at hid
        exact h.fresh id tokens hid
    · dsimp only
      rw [hadd.seqTable]
      unfold Streams.add at hid ⊢
      by_cases hne : id = seq.seqId
      · subst hne
        dsimp only at hid ⊢
        rw [Function.update_self] at hid
        cases hid
        exact ⟨seq, Function.update_self _ _ _, by simp⟩
      · dsimp only at hid ⊢
        rw [Function.update_of_ne hne] at hid
        rw [Function.update_of_ne hne, Function.update_of_ne hne]
        exact h.streams id tokens hid

omit [Xxh3] in
/-- Nothing but what `KeepsStreams` allows happened, and nothing was streamed. -/
theorem keepsStreams {x' : EngineState} (h : StreamInv config (x, g)) (hk : KeepsStreams x.sched x'.sched) :
    StreamInv config (x', g) where
  config := hk.config.trans h.config
  dummies := fun id hid => by
    rw [isReservedId_congr hk.config]
    exact (hk.dummies id hid).elim (h.dummies id) fun hid => hid
  fresh := fun id tokens hid => by
    rw [isReservedId_congr hk.config]
    exact h.fresh id tokens hid
  streams := fun id tokens hid => by
    obtain ⟨a, ha, htokens⟩ := h.streams id tokens hid
    obtain ⟨b, hb, hab⟩ := hk.entry id (h.fresh id tokens hid) a ha
    exact ⟨b, hb, hab.tokenIds.trans htokens⟩

theorem step (hmode : config.mode ≠ .prefill) (h : StreamInv config (x, g)) (rows : List (List (List ℤ)))
    (logprobs : List (List (List ℚ))) (hguard : streamGuard (x, g) (.step rows logprobs) = true) :
    StreamInv config (x.step rows logprobs, Streams.follow x (.step rows logprobs) (x.step rows logprobs) g) := by
  have hschedule := schedule_keepsStreams x.sched
  simp only [streamGuard] at hguard
  unfold Streams.follow EngineState.step EngineState.report
  cases hs : x.sched.schedule with
  | mk result s =>
    rw [hs] at hschedule hguard
    cases result with
    | error e =>
      have : StreamInv config ({ x with sched := s }, g) := h.keepsStreams hschedule
      simpa [emitted] using this
    | ok r =>
      dsimp only at hguard ⊢
      -- neither the schedule nor the swaps touch a token
      have hswap : KeepsStreams s (s.completeSwaps r) :=
        (cacheCompleteHostSwapOuts_frame s _).keepsStreams.trans (cacheCompleteHostSwapIns_frame _ _).keepsStreams
      have hbefore := hschedule.trans hswap
      have hinv : StreamInv config ({ x with sched := s.completeSwaps r }, g) := h.keepsStreams hbefore
      have hmode' : (s.completeSwaps r).config.mode ≠ .prefill := by rw [hinv.config]; exact hmode
      have htrack : x.trackRunning = decide ((s.completeSwaps r).config.mode = .decode) := by
        unfold EngineState.trackRunning
        rw [hinv.config, h.config]
      obtain ⟨hconfig, hdummies⟩ := postprocessImpl_config (s.completeSwaps r) r.filteredDpGroupSeqIds rows logprobs
      have hrun : ((s.completeSwaps r).runScheduled r rows logprobs).config = (s.completeSwaps r).config ∧
          ((s.completeSwaps r).runScheduled r rows logprobs).dummySeqIds = (s.completeSwaps r).dummySeqIds := by
        unfold runScheduled
        split
        · exact ⟨rfl, rfl⟩
        · exact ⟨hconfig, hdummies⟩
      have hrec := recordCompleteStep_frame ((s.completeSwaps r).runScheduled r rows logprobs) r.dpSeqIds x.trackRunning
        x.previousRunning
      refine ⟨hrec.config.trans (hrun.1.trans hinv.config), fun id hid => ?_, fun id tokens hid => ?_,
        fun id tokens hid => ?_⟩
      · rw [isReservedId_congr (hrec.config.trans hrun.1)]
        exact hinv.dummies id (hrun.2 ▸ hrec.dummySeqIds ▸ hid)
      · rw [isReservedId_congr (hrec.config.trans hrun.1)]
        exact hinv.fresh id tokens hid
      · obtain ⟨a, ha, htokens⟩ := hinv.streams id tokens hid
        have hreserved := hinv.fresh id tokens hid
        have hdummy : id ∉ (s.completeSwaps r).dummySeqIds := fun hmem => by
          have := hinv.dummies id hmem
          rw [hreserved] at this
          cases this
        obtain ⟨b, hb, hemit⟩ := runScheduled_emitted logprobs hmode' hdummy ha (schedule_filtered hs) hguard
        obtain ⟨c, hc, hbc⟩ := hrec.table.entry id b hb
        refine ⟨c, hc, ?_⟩
        rw [hbc.tokenIds, hemit, htokens, htrack, List.append_assoc]
        rfl

end StreamInv

theorem streamInv_invariant {config : SchedulerConfig} (hmode : config.mode ≠ .prefill) :
    Invariant (streamSystem config) streamGuard (StreamInv config) where
  initial := by
    rintro ⟨x, g⟩ ⟨hx, hg⟩
    cases hx
    cases hg
    exact ⟨rfl, fun _ hid => absurd hid (Finset.notMem_empty _), fun _ _ hid => (by cases hid),
      fun _ _ hid => (by cases hid)⟩
  next := by
    rintro ⟨x, g⟩ op ⟨x', g'⟩ h hguard hnext
    obtain ⟨y, hy, heq⟩ := Option.map_eq_some_iff.1 hnext
    cases heq
    cases EngineState.step_of_next hy with
    | added request hadd => exact h.add hadd
    | handedOver request hover hadd => exact h.add hadd
    | stepped rows logprobs => exact h.step hmode rows logprobs hguard
    -- an abort adds no token
    | aborted seqId =>
      refine h.keepsStreams ?_
      cases hfound : (x.sched.abortImpl seqId).1 with
      | false =>
        dsimp only
        rw [abortImpl_not_found hfound]
        exact .refl _
      | true =>
        have hab := abortImpl_found hfound
        refine .of_table hab.config hab.seqTable hab.lastStepTokenIds hab.dummySeqIds fun id hid => ?_
        dsimp only at hid
        rw [hab.toBeMigrated, Function.update_apply] at hid
        split at hid
        · cases hid
        · exact hid
    | @freed seqId hmig =>
      have hfreed := freeToBeMigrated_spec hmig
      refine ⟨hfreed.config.trans h.config, fun id hid => ?_, fun id tokens hid => ?_, fun id tokens hid => ?_⟩
      · rw [isReservedId_congr hfreed.config]
        exact h.dummies id (hfreed.dummySeqIds ▸ hid)
      · rw [isReservedId_congr hfreed.config]
        exact h.fresh id tokens hid
      · obtain ⟨seq, hseq, htokens⟩ := h.streams id tokens hid
        dsimp only
        rw [hfreed.seqTable]
        by_cases hid : id = seqId
        · subst hid
          refine ⟨{ seq with status := .finished }, ?_, htokens⟩
          rw [Function.update_self]
          exact congrArg (Option.map _) hseq
        · exact ⟨seq, by rwa [Function.update_of_ne hid], htokens⟩
    | toggled => exact h.keepsStreams (.of_table rfl rfl rfl rfl fun _ h => h)

/-- **Token streams are conserved**: in every run within the guard the tokens of a sequence are those it came with and
those streamed for it, in order. -/
theorem streams_conserved (config : SchedulerConfig) (hmode : config.mode ≠ .prefill) (p : EngineState × Streams)
    (hp : Reachable (streamSystem config) streamGuard p) (seqId : ℕ) (tokens : List ℤ)
    (harrived : p.2.arrived seqId = some tokens) :
    ∃ seq, p.1.sched.seqTable seqId = some seq ∧ seq.tokenIds = tokens ++ p.2.streamed seqId :=
  ((streamInv_invariant hmode).holds hp).streams seqId tokens harrived

end runs

/-! ## Evaluated runs -/

section evaluated

attribute [local instance] codeHash

/-- Eight blocks of four tokens, and prefills of up to `budget` tokens a step. -/
def chunkedConfig (budget : ℤ) : SchedulerConfig where
  maxNumSeqs := 8
  maxNumBatchedTokens := budget
  maxModelLen := 100
  numKvcacheBlocks := 8
  kvcacheBlockSize := 4

def sevenTokens : EngineOp := .addRequest { seqId := 0, promptTokenIds := [1, 2, 3, 4, 5, 6, 7] }

/-- The prompt fits into one step; the second step verifies two speculated tokens. -/
theorem streams_conserved_unchunked : ∃ p, Reachable (streamSystem (chunkedConfig 64)) streamGuard p ∧
    p.2.streamed 0 = [9, 11, 12] ∧
      ∃ seq, p.1.sched.seqTable 0 = some seq ∧ seq.tokenIds = [1, 2, 3, 4, 5, 6, 7] ++ p.2.streamed 0 := by
  obtain ⟨p, hp, hP⟩ := Reachable.exists_of_run (T := streamSystem (chunkedConfig 64)) (G := streamGuard)
    (P := fun p => decide (p.2.arrived 0 = some [1, 2, 3, 4, 5, 6, 7]) && decide (p.2.streamed 0 = [9, 11, 12]))
    (s := (EngineState.init (chunkedConfig 64), Streams.init))
    [sevenTokens, .step [[[9]]] [], .step [[[11, 12]]] []] ⟨rfl, rfl⟩ (by decide +kernel)
  simp only [Bool.and_eq_true, decide_eq_true_eq] at hP
  exact ⟨p, hp, hP.2, streams_conserved (chunkedConfig 64) (by decide) p hp 0 _ hP.1⟩

/-- After the first chunk of four tokens nothing was generated, but the last token of the prompt is streamed. -/
theorem not_streams_conserved : ¬ ∀ config : SchedulerConfig, config.mode ≠ .prefill →
    ∀ p : EngineState × Streams,
    Reachable (streamSystem config) always p → ∀ seqId tokens, p.2.arrived seqId = some tokens →
      ∃ seq, p.1.sched.seqTable seqId = some seq ∧ seq.tokenIds = tokens ++ p.2.streamed seqId := by
  intro h
  obtain ⟨p, hp, hP⟩ := Reachable.exists_of_run (T := streamSystem (chunkedConfig 4)) (G := always)
    (P := fun p => decide (p.2.arrived 0 = some [1, 2, 3, 4, 5, 6, 7]) && decide (p.2.streamed 0 = [7]) &&
      decide ((p.1.sched.seqTable 0).map (·.tokenIds) = some [1, 2, 3, 4, 5, 6, 7]))
    (s := (EngineState.init (chunkedConfig 4), Streams.init)) [sevenTokens, .step [[[9]]] []] ⟨rfl, rfl⟩
    (by decide +kernel)
  simp only [Bool.and_eq_true, decide_eq_true_eq] at hP
  obtain ⟨⟨harrived, hstreamed⟩, htokens⟩ := hP
  obtain ⟨seq, hseq, hconserved⟩ := h (chunkedConfig 4) (by decide) p hp 0 _ harrived
  rw [hseq, Option.map_some, Option.some.injEq] at htokens
  rw [htokens, hstreamed] at hconserved
  cases hconserved

end evaluated

end NanoEngine
