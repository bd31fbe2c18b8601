import NanoEngine.Engine.Rules

/-!
# NanoEngine.Failures.Schedule — what a failed `schedule` leaves behind

The loop of `run_engine_backend` logs an exception of `schedule` and calls it again.  Nothing that the failed call did
is undone, so the retry finds the queues as they were only if it did nothing.

* `Unmoved s s'`: every sequence has the chunk it had and stands in the queues it stood in.
* `failsQuietly s`: no chunked prefill goes on, and the head of the queue is refused or fails without a trace.
* `schedule_error_unmoved`: then a `schedule` that fails leaves every sequence where it was.
-/

namespace NanoEngine

open Transition

/-- The chunk of a sequence stays. -/
structure Sequence.KeepsChunk (a b : Sequence) : Prop where
  numTokens : b.numTokens = a.numTokens
  prefillStartOffset : b.prefillStartOffset = a.prefillStartOffset

theorem Sequence.KeepsChunk.refl (a : Sequence) : a.KeepsChunk a := ⟨rfl, rfl⟩

theorem Sequence.KeepsChunk.trans {a b c : Sequence} (h : a.KeepsChunk b) (k : b.KeepsChunk c) : a.KeepsChunk c :=
  ⟨k.numTokens.trans h.numTokens, k.prefillStartOffset.trans h.prefillStartOffset⟩

theorem Sequence.KeepsProgress.keepsChunk {a b : Sequence} (h : a.KeepsProgress b) : a.KeepsChunk b :=
  ⟨h.numTokens, h.prefillStartOffset⟩

namespace Scheduler

/-- No sequence was advanced or moved between `s` and `s'`. -/
structure Unmoved (s s' : Scheduler) : Prop where
  numTokens : ∀ id, (s'.seqTable id).map (·.numTokens) = (s.seqTable id).map (·.numTokens)
  prefillStartOffset : ∀ id, (s'.seqTable id).map (·.prefillStartOffset) =
    (s.seqTable id).map (·.prefillStartOffset)
  waiting : ∀ id, id ∈ s'.waiting ↔ id ∈ s.waiting
  waitingMigration : ∀ id, id ∈ s'.waitingMigration ↔ id ∈ s.waitingMigration
  running : ∀ d id, id ∈ s'.running d ↔ id ∈ s.running d
  prefilling : ∀ d id, id ∈ s'.prefilling d ↔ id ∈ s.prefilling d
  toBeMigrated : ∀ id, s'.toBeMigrated id = s.toBeMigrated id

variable {s s' s'' : Scheduler} {seqId dpIdx : ℕ}

theorem Frame.unmoved (h : Frame Sequence.KeepsChunk seqId s s') : Unmoved s s' := by
  have htable := h.table Sequence.KeepsChunk.refl
  refine ⟨fun id => ?_, fun id => ?_, fun id => by rw [h.waiting], fun id => by rw [h.waitingMigration],
    fun d id => by rw [h.running], fun d id => by rw [h.prefilling], fun id => by rw [h.toBeMigrated]⟩
  · cases ha : s.seqTable id with
    | none => rw [htable.missing id ha]
    | some a =>
      obtain ⟨b, hb, hab⟩ := htable.entry id a ha
      rw [hb, Option.map_some, Option.map_some, hab.numTokens]
  · cases ha : s.seqTable id with
    | none => rw [htable.missing id ha]
    | some a =>
      obtain ⟨b, hb, hab⟩ := htable.entry id a ha
      rw [hb, Option.map_some, Option.map_some, hab.prefillStartOffset]

/-- A frame keeps the chunk when it does so for the entry at hand. -/
theorem Frame.keepsChunk {R : Sequence → Sequence → Prop} (h : Frame R seqId s s')
    (hR : ∀ a b, s.seqTable seqId = some a → s'.seqTable seqId = some b → R a b → a.KeepsChunk b) :
    Frame Sequence.KeepsChunk seqId s s' := by
  refine { h.toSameQueues with others := h.others, missing := h.missing, entry := fun a ha => ?_ }
  obtain ⟨b, hb, hab⟩ := h.entry a ha
  exact ⟨b, hb, hR a b ha hb hab⟩

theorem Frame.transChunk (h : Frame Sequence.KeepsChunk seqId s s') (k : Frame Sequence.KeepsChunk seqId s' s'') :
    Frame Sequence.KeepsChunk seqId s s'' :=
  h.comp k fun _ _ _ => Sequence.KeepsChunk.trans

/-! ## Continuations -/

/-- Every sequence between two chunks is at its target: there is nothing to go on with. -/
def prefillingIdle (s : Scheduler) : Bool :=
  (List.range s.dp).all (fun d => (s.prefilling d).all (fun id =>
    ((s.seqTable id).map (fun seq => decide (promptTarget seq ≤ seq.numTokens))).getD false))

theorem continueSeq_idle {st : PrefillState} {seq : Sequence} (hseq : st.sched.seqTable seqId = some seq)
    (hdone : promptTarget seq ≤ seq.numTokens) :
    PrefillState.continueSeq dpIdx st seqId = st.withSched (st.sched.pushPrefilling dpIdx seqId) := by
  unfold PrefillState.continueSeq
  rw [hseq]
  dsimp only
  rw [if_pos (by omega)]

/-- Idle sequences are put back in the order in which they were taken. -/
theorem continueRank_idle {st : PrefillState} (h : ∀ id ∈ st.sched.prefilling dpIdx, ∃ seq,
    st.sched.seqTable id = some seq ∧ promptTarget seq ≤ seq.numTokens) : st.continueRank dpIdx = st := by
  have hfold : ∀ (ids done : List ℕ), (∀ id ∈ ids, ∃ seq, st.sched.seqTable id = some seq ∧
      promptTarget seq ≤ seq.numTokens) → ids.foldl (PrefillState.continueSeq dpIdx)
        (st.withSched { st.sched with prefilling := Function.update st.sched.prefilling dpIdx done }) =
        st.withSched { st.sched with prefilling := Function.update st.sched.prefilling dpIdx (done ++ ids) } := by
    intro ids
    induction ids with
    | nil => intro done _; rw [List.append_nil]; rfl
    | cons id ids ih =>
      intro done hids
      obtain ⟨seq, hseq, hdone⟩ := hids id List.mem_cons_self
      have hone := @continueSeq_idle _ dpIdx
        (st.withSched { st.sched with prefilling := Function.update st.sched.prefilling dpIdx done }) _ hseq hdone
      have hnext := ih (done ++ [id]) fun id' hid' => hids id' (List.mem_cons_of_mem _ hid')
      rw [List.append_assoc, List.singleton_append] at hnext
      rw [← hnext, List.foldl_cons]
      refine congrArg (fun st => List.foldl (PrefillState.continueSeq dpIdx) st ids) (hone.trans ?_)
      simp [PrefillState.withSched, pushPrefilling]
  unfold PrefillState.continueRank
  have hall := hfold (st.sched.prefilling dpIdx) [] h
  rw [List.nil_append, Function.update_eq_self] at hall
  exact hall

theorem continueAll_idle {st : PrefillState} (h : st.sched.prefillingIdle = true) : st.continueAll = st := by
  have hidle : ∀ d ∈ List.range st.sched.dp, st.continueRank d = st := by
    intro d hd
    refine continueRank_idle fun id hid => ?_
    have hall := List.all_eq_true.1 (List.all_eq_true.1 h d hd) id hid
    cases hseq : st.sched.seqTable id with
    | none => simp [hseq] at hall
    | some seq => exact ⟨seq, rfl, by simpa [hseq] using hall⟩
  unfold PrefillState.continueAll
  generalize List.range st.sched.dp = ranks at hidle
  induction ranks with
  | nil => rfl
  | cons d ranks ih =>
    rw [List.foldl_cons, hidle d List.mem_cons_self]
    exact ih fun d' hd' => hidle d' (List.mem_cons_of_mem _ hd')

/-! ## One try -/

/-- A restore on this rank is possible: it is the sequence's own, the cool-down is over and there are enough blocks. -/
def restoresHere (s : Scheduler) (seqId dpIdx : ℕ) : Bool :=
  ((s.seqTable seqId).map (fun seq =>
    !(s.hostBlocksOf seq).isEmpty && decide (dpIdx = (max seq.activeDpIdx 0).toNat)
      && decide (seq.lastSwappedOutStep + hostSwapInCooldownSteps < s.currentStep)
      && decide ((s.hostBlocksOf seq).length ≤
        (s.cache.hbmPools (s.flatIdx dpIdx (s.groupOf seq))).numFreeBlocks))).getD false

variable [Xxh3]

theorem cacheTryRestoreHostBlocks_not_here (h : s.restoresHere seqId dpIdx = false) :
    s.cacheTryRestoreHostBlocks seqId dpIdx = (.ok false, s) := by
  unfold restoresHere at h
  unfold cacheTryRestoreHostBlocks
  split
  case h_1 => rfl
  case h_2 seq hseq =>
    rw [hseq, Option.map_some, Option.getD_some] at h
    dsimp only
    split
    case isTrue => rfl
    case isFalse hhome =>
      split
      case isTrue => rfl
      case isFalse hcool =>
        split
        case isTrue => rfl
        case isFalse hfree =>
          push Not at hhome hcool hfree
          obtain ⟨hblocks, rfl⟩ := hhome
          simp [hblocks, hcool, hfree] at h

/-- The prefix cache answers what the sequence records, and the chunk that the admission schedules is the one it has. -/
def chunkRecorded (s : Scheduler) (seqId dpIdx : ℕ) (batchSeqs batchTokens : ℕ → ℤ) : Bool :=
  let r := s.prepareAdmission seqId dpIdx batchSeqs batchTokens
  decide ((r.2.seqTable seqId).map (·.prefillStartOffset) = (s.seqTable seqId).map (·.prefillStartOffset)) &&
    match r.1 with
    | none => true
    | some a =>
      decide (s.config.mode = .decode) || decide ((s.seqTable seqId).map (·.prefillStartOffset) = some a.cached)
        && decide ((s.seqTable seqId).map (·.numTokens) = some (a.cached + a.newTokens))

/-- A try that does not admit, preempts nobody and writes the recorded chunk leaves no trace. -/
theorem tryAllocatePrefill_quiet {batchSeqs batchTokens : ℕ → ℤ}
    (hchunk : s.chunkRecorded seqId dpIdx batchSeqs batchTokens = true)
    (hvictim : s.admissionVictim seqId dpIdx batchSeqs batchTokens = none)
    (hnot : ∀ n, (s.tryAllocatePrefill seqId dpIdx batchSeqs batchTokens).1 ≠ .ok (some n)) :
    Frame Sequence.KeepsChunk seqId s (s.tryAllocatePrefill seqId dpIdx batchSeqs batchTokens).2 := by
  unfold chunkRecorded at hchunk
  rw [Bool.and_eq_true, decide_eq_true_eq] at hchunk
  obtain ⟨hoffset, hadmission⟩ := hchunk
  have hprep : Frame Sequence.KeepsChunk seqId s (s.prepareAdmission seqId dpIdx batchSeqs batchTokens).2 := by
    refine (prepareAdmission_frame s seqId dpIdx batchSeqs batchTokens).keepsChunk fun a b ha hb hab => ?_
    obtain ⟨cached, offset, rfl⟩ := hab
    rw [ha, hb, Option.map_some, Option.map_some, Option.some.injEq] at hoffset
    exact ⟨rfl, hoffset⟩
  unfold admissionVictim failedAdmission at hvictim
  unfold tryAllocatePrefill at hnot ⊢
  generalize hr : s.prepareAdmission seqId dpIdx batchSeqs batchTokens = r at *
  obtain ⟨o, s₁⟩ := r
  cases o with
  | none => exact hprep
  | some a =>
    dsimp only at hadmission hvictim hnot hprep ⊢
    have hreserve : Frame Sequence.KeepsChunk seqId s (s₁.reserveAdmission seqId dpIdx a).2 := by
      refine hprep.transChunk ((reserveAdmission_frame s₁ seqId dpIdx a).keepsChunk fun x y hx _ hxy => ?_)
      have hmode : s₁.config.mode = s.config.mode := by rw [hprep.config]
      rcases Bool.or_eq_true_iff.1 hadmission with hdecode | hrecorded
      · obtain ⟨hn, ho⟩ := hxy.decode (hmode.trans (of_decide_eq_true hdecode))
        exact ⟨hn, ho⟩
      · by_cases hdecode : s₁.config.mode = .decode
        · obtain ⟨hn, ho⟩ := hxy.decode hdecode
          exact ⟨hn, ho⟩
        · obtain ⟨hn, ho⟩ := hxy.prefill hdecode
          rw [Bool.and_eq_true, decide_eq_true_eq, decide_eq_true_eq] at hrecorded
          have hun := hprep.unmoved
          have hnum := hun.numTokens seqId
          have hoff := hun.prefillStartOffset seqId
          rw [hx, Option.map_some, hrecorded.2, Option.some.injEq] at hnum
          rw [hx, Option.map_some, hrecorded.1, Option.some.injEq] at hoff
          exact ⟨hn.trans hnum.symm, ho.trans hoff.symm⟩
    generalize hr₂ : s₁.reserveAdmission seqId dpIdx a = r₂ at *
    obtain ⟨o₂, s₂⟩ := r₂
    cases o₂ with
    | error e =>
      dsimp only [Option.bind_some] at hvictim hreserve ⊢
      have hcancel : Frame Sequence.KeepsChunk seqId s₂ (s₂.cancelAdmission seqId) :=
        Frame.of_setCache_updateSeq s₂ _ _ fun _ => ⟨rfl, rfl⟩
      unfold preemptOneForAllocation
      rw [hvictim]
      exact hreserve.transChunk hcancel
    | ok u =>
      dsimp only at hnot hreserve ⊢
      have hfin := (finishAdmission_frame s₂ seqId a.master a.fullLen a.cached).keepsChunk fun x y _ _ hxy =>
        hxy.toKeepsProgress.keepsChunk
      generalize s₂.finishAdmission seqId a.master a.fullLen a.cached = r₃ at *
      obtain ⟨o₃, s₃⟩ := r₃
      cases o₃ with
      | error e => exact hreserve.transChunk hfin
      | ok u => exact absurd rfl (hnot a.newTokens)

/-- A rank that does not take the sequence, preempts nobody for it and writes the chunk it has. -/
def quietTry : PrefillState.RankTest := fun st seqId dpIdx =>
  if st.sched.cacheSeqHasHostBlocks seqId then !st.sched.restoresHere seqId dpIdx
  else st.sched.chunkRecorded seqId dpIdx (st.numSeqs dpIdx) (st.numTokens dpIdx)
    && (st.sched.admissionVictim seqId dpIdx (st.numSeqs dpIdx) (st.numTokens dpIdx)).isNone
    && match (st.tryOn seqId dpIdx).1 with
      | .ok (some _) => false
      | _ => true

theorem tryRank_quiet {st : PrefillState} (h : quietTry st seqId dpIdx = true) :
    (st.tryRank seqId dpIdx).1 ≠ .ok true ∧ Frame Sequence.KeepsChunk seqId st.sched
      (st.tryRank seqId dpIdx).2.sched := by
  unfold quietTry at h
  unfold PrefillState.tryRank
  split at h
  case isTrue hhost =>
    rw [if_pos hhost, cacheTryRestoreHostBlocks_not_here (by simpa using h)]
    exact ⟨by simp, Frame.refl Sequence.KeepsChunk.refl _⟩
  case isFalse hhost =>
    rw [if_neg hhost]
    simp only [Bool.and_eq_true, Option.isNone_iff_eq_none] at h
    obtain ⟨⟨hchunk, hvictim⟩, hnot⟩ := h
    unfold PrefillState.tryOn at hnot ⊢
    have hframe := tryAllocatePrefill_quiet hchunk hvictim fun n hn => by rw [hn] at hnot; cases hnot
    split
    case h_1 e s₁ heq =>
      rw [heq] at hframe
      exact ⟨by simp, hframe⟩
    case h_2 n s₁ heq =>
      rw [heq] at hnot
      cases hnot
    case h_3 s₁ heq =>
      rw [heq] at hframe
      exact ⟨by simp, hframe⟩

theorem tryCandidates_quiet {ranks : List ℕ} {st : PrefillState}
    (h : PrefillState.ranksPass quietTry seqId ranks st = true) :
    (PrefillState.tryCandidates seqId ranks st).1 ≠ .ok true ∧
      Frame Sequence.KeepsChunk seqId st.sched (PrefillState.tryCandidates seqId ranks st).2.sched := by
  induction ranks generalizing st with
  | nil => exact ⟨by simp [PrefillState.tryCandidates], Frame.refl Sequence.KeepsChunk.refl _⟩
  | cons d ranks ih =>
    rw [PrefillState.ranksPass, Bool.and_eq_true] at h
    obtain ⟨hne, hframe⟩ := tryRank_quiet h.1
    replace h := h.2
    rw [PrefillState.tryCandidates_cons]
    split
    case h_1 st' heq =>
      rw [heq] at h hframe
      obtain ⟨hne', hframe'⟩ := ih h
      exact ⟨hne', hframe.transChunk hframe'⟩
    case h_2 => exact ⟨hne, hframe⟩

/-! ## The call -/

/-- The state in which the admission loop starts when no chunked prefill goes on. -/
def admissionStart (s : Scheduler) : PrefillState := PrefillState.init { s with currentStep := s.currentStep + 1 }

/-- Nothing is continued, and every rank tried for the head of the queue is quiet. -/
def failsQuietly (s : Scheduler) : Bool :=
  s.prefillingIdle && match s.admissionStart.queue.head? with
    | none => true
    | some seqId =>
      let routed := s.admissionStart.sched.routeCandidates seqId
      PrefillState.ranksPass quietTry seqId routed.1 (s.admissionStart.withSched routed.2)

/-- **A `schedule` that fails moves nothing** when the head of the queue fails quietly. -/
theorem schedule_error_unmoved (s s' : Scheduler) (e : PyErr) (h : s.schedule = (.error e, s'))
    (hquiet : s.failsQuietly = true) : Unmoved s s' := by
  unfold failsQuietly at hquiet
  rw [Bool.and_eq_true] at hquiet
  obtain ⟨hidle, hhead⟩ := hquiet
  have hstart : s.admissionStart.continueAll = s.admissionStart := continueAll_idle hidle
  have hpos : s.admissionStart.admissionFuel ≠ 0 := Nat.succ_ne_zero _
  obtain ⟨fuel, hfuel⟩ := Nat.exists_eq_succ_of_ne_zero hpos
  unfold schedule schedulePrefill at h
  dsimp only at h
  rw [show (PrefillState.init { s with currentStep := s.currentStep + 1 }).continueAll = s.admissionStart from hstart,
    hfuel, PrefillState.admitLoop] at h
  cases hq : s.admissionStart.queue.head? with
  | none =>
    -- with an empty queue the call does not fail
    rw [hq] at h
    dsimp only at h
    split at h <;> cases h
  | some seqId =>
    rw [hq] at h hhead
    dsimp only at h hhead
    obtain ⟨hne, hframe⟩ := tryCandidates_quiet hhead
    have hroute := (s.admissionStart.sched.routeCandidates_frame seqId seqId).mono fun _ _ hab => hab.keepsChunk
    have hmoved := (hroute.transChunk hframe).unmoved
    generalize PrefillState.tryCandidates seqId _ _ = run at h hne hmoved
    obtain ⟨o, st⟩ := run
    cases o with
    | error e' =>
      cases h
      exact ⟨hmoved.numTokens, hmoved.prefillStartOffset, hmoved.waiting, hmoved.waitingMigration, hmoved.running,
        hmoved.prefilling, hmoved.toBeMigrated⟩
    | ok b =>
      cases b with
      | true => exact absurd rfl hne
      | false =>
        dsimp only at h
        split at h <;> cases h

end Scheduler

section runs

attribute [local instance] codeHash

/-- Two ranks with two blocks of four tokens each. -/
def twoRanksConfig (budget : ℤ) : SchedulerConfig where
  maxNumSeqs := 8
  maxNumBatchedTokens := budget
  maxModelLen := 100
  attentionDp := 2
  numKvcacheBlocks := 2
  kvcacheBlockSize := 4

/-- A prompt for which no rank has enough blocks. -/
def oversizedRequest : EngineOp := .addRequest { seqId := 1, promptTokenIds := List.replicate 20 1 }

/-- The chunk and the queues of a sequence. -/
def chunkAndPlace (s : Scheduler) (seqId : ℕ) : Option (ℤ × ℤ) × Bool × Bool × Bool :=
  ((s.seqTable seqId).map (fun seq => (seq.numTokens, seq.prefillStartOffset)), s.waiting.contains seqId,
    (s.prefilling 0).contains seqId, (s.running 0).contains seqId)

def isError (r : Except PyErr ScheduleResult) : Bool :=
  match r with
  | .error _ => true
  | .ok _ => false

theorem exists_of_isError [Xxh3] {s : Scheduler} (h : isError s.schedule.1 = true) :
    ∃ e, s.schedule = (.error e, s.schedule.2) := by
  cases hs : s.schedule with
  | mk o s' =>
    rw [hs] at h
    cases o with
    | error e => exact ⟨e, rfl⟩
    | ok r => cases h

/-- An oversized prompt alone fails, and waits as before. -/
theorem schedule_error_unmoved_oversized : ∃ x e, Reachable (engineSystem (twoRanksConfig 64)) always x ∧
    x.sched.waiting = [1] ∧ x.sched.schedule = (.error e, x.sched.schedule.2) ∧
      Scheduler.Unmoved x.sched x.sched.schedule.2 := by
  obtain ⟨x, hx, hP⟩ := Reachable.exists_of_run (T := engineSystem (twoRanksConfig 64)) (G := always)
    (P := fun x : EngineState => decide (x.sched.waiting = [1]) && isError x.sched.schedule.1 && x.sched.failsQuietly)
    (s := EngineState.init (twoRanksConfig 64)) [oversizedRequest] rfl (by decide +kernel)
  simp only [Bool.and_eq_true, decide_eq_true_eq] at hP
  obtain ⟨⟨hwaiting, herror⟩, hquiet⟩ := hP
  obtain ⟨e, he⟩ := exists_of_isError herror
  exact ⟨x, e, hx, hwaiting, he, x.sched.schedule_error_unmoved _ e he hquiet⟩

/-- While sequence 0 is between two chunks, the oversized prompt fails on the other rank: the chunk of sequence 0 has
been advanced from 4 to 7 tokens and the sequence has been moved to `running`. -/
theorem not_schedule_error_unmoved : ¬ ∀ (config : SchedulerConfig) (x : EngineState) (e : PyErr) (s' : Scheduler),
    Reachable (engineSystem config) always x →
      x.sched.schedule = (.error e, s') → Scheduler.Unmoved x.sched s' := by
  intro h
  obtain ⟨x, hx, hP⟩ := Reachable.exists_of_run (T := engineSystem (twoRanksConfig 4)) (G := always)
    (P := fun x : EngineState => isError x.sched.schedule.1 &&
      decide (chunkAndPlace x.sched 0 = (some (4, 0), false, true, false)) &&
      decide (chunkAndPlace x.sched.schedule.2 0 = (some (7, 4), false, false, true)))
    (s := EngineState.init (twoRanksConfig 4))
    [.addRequest { seqId := 0, promptTokenIds := [1, 2, 3, 4, 5, 6, 7] }, .step [[[9]], []] [], oversizedRequest] rfl
    (by decide +kernel)
  simp only [Bool.and_eq_true, decide_eq_true_eq, chunkAndPlace, Prod.mk.injEq] at hP
  obtain ⟨⟨herror, -, -, hbefore, -⟩, -, -, hafter, -⟩ := hP
  obtain ⟨e, he⟩ := exists_of_isError herror
  have hmem := (h (twoRanksConfig 4) x e _ hx he).prefilling 0 0
  rw [List.contains_iff_mem] at hbefore
  rw [← Bool.not_eq_true, List.contains_iff_mem] at hafter
  exact hafter (hmem.2 hbefore)

end runs

end NanoEngine
