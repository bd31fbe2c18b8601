import NanoEngine.Engine.Step
import NanoEngine.Queues.Main

/-!
# NanoEngine.Queues.Engine — the queues along an engine step

A step of the engine is a `schedule` call, the completion of its swap tasks and the postprocessing of its result, so it
keeps `CallInv`.
-/

namespace NanoEngine

open Scheduler

namespace EngineState

/-- The scheduler between two steps: no result is outstanding. -/
def ops (x : EngineState) : OpState := ⟨x.sched, none, x.live⟩

end EngineState

namespace Scheduler

/-- A reported sequence hands its vision slots over. -/
def Reports (a b : Sequence) : Prop := b = a ∨ b = { a with visionSlots := [] }

theorem Reports.trans {a b c : Sequence} (h : Reports a b) (k : Reports b c) : Reports a c := by
  obtain rfl | rfl := h
  · exact k
  · obtain rfl | rfl := k <;> exact .inr rfl

theorem Reports.tokenIds {a b : Sequence} (h : Reports a b) : b.tokenIds = a.tokenIds := by
  obtain rfl | rfl := h <;> rfl

theorem Reports.status {a b : Sequence} (h : Reports a b) : b.status = a.status := by
  obtain rfl | rfl := h <;> rfl

/-- Collecting the events of a step changes neither a queue nor the progress of a sequence. -/
structure ReportFrame (s s' : Scheduler) : Prop extends SameQueues s s' where
  table : TableRel Reports s s'

theorem ReportFrame.refl (s : Scheduler) : ReportFrame s s := ⟨.refl s, .refl (fun _ => .inl rfl) s⟩

theorem ReportFrame.trans {s s' s'' : Scheduler} (h : ReportFrame s s') (k : ReportFrame s' s'') : ReportFrame s s'' :=
  ⟨h.toSameQueues.trans k.toSameQueues, h.table.trans (fun _ _ _ => Reports.trans) k.table⟩

theorem collectSequenceEvents_frame (track : Bool) (previous : Finset ℕ) (ids : List ℕ) (s : Scheduler) :
    ReportFrame s (collectSequenceEvents track previous ids s).2 := by
  induction ids generalizing s with
  | nil => exact .refl s
  | cons id ids ih =>
    unfold collectSequenceEvents
    split
    · exact ih s
    · split
      · exact ih s
      · have hf : Frame Reports id s (s.updateSeq id (fun seq => { seq with visionSlots := [] })) :=
          Frame.of_updateSeq _ _ fun _ => .inr rfl
        exact ReportFrame.trans ⟨hf.toSameQueues, hf.table fun _ => .inl rfl⟩ (ih _)

theorem recordCompleteStep_frame (s : Scheduler) (dpSeqIds : List (List ℕ)) (track : Bool) (previous : Finset ℕ) :
    ReportFrame s (s.recordCompleteStep dpSeqIds track previous).2 := by
  have hfold : ∀ (ids : List ℕ) (s : Scheduler), ReportFrame s (ids.foldl clearFinishedMetricState s) := by
    intro ids
    induction ids with
    | nil => intro s; exact .refl s
    | cons id ids ih =>
      intro s
      have hclear : ReportFrame s (s.clearFinishedMetricState id) :=
        ⟨⟨rfl, rfl, rfl, rfl, rfl, rfl, rfl, rfl, rfl⟩, fun _ hn => hn, fun _ a ha => ⟨a, ha, .inl rfl⟩⟩
      exact hclear.trans (ih _)
  exact (collectSequenceEvents_frame track previous dpSeqIds.flatten s).trans (hfold _ _)

end Scheduler

namespace EngineState

variable [Xxh3] {x : EngineState} {r : ScheduleResult} {s : Scheduler}

/-- The scheduler when the batch of a step is served, and after it. -/
theorem step_sched (hs : x.sched.schedule = (.ok r, s)) (rows : List (List (List ℤ)))
    (logprobs : List (List (List ℚ))) :
    (x.step rows logprobs).sched =
      (((s.completeSwaps r).runScheduled r rows logprobs).recordCompleteStep r.dpSeqIds x.trackRunning
        x.previousRunning).2 := by
  unfold step report
  rw [hs]

end EngineState

namespace CallInv

variable [Xxh3] {config : SchedulerConfig} {x : EngineState} {r : ScheduleResult} {s : Scheduler}

/-- The scheduler that is serialized. -/
theorem served (h : CallInv config x.ops) (hs : x.sched.schedule = (.ok r, s))
    (hpass : x.sched.prefillPasses queueTest = true) : CallInv config ⟨s.completeSwaps r, some r, x.live⟩ :=
  ((h.schedule hpass hs).swapFrame (cacheCompleteHostSwapOuts_frame s _)).swapFrame (cacheCompleteHostSwapIns_frame _ _)

/-- **An engine step keeps the queues**, when `schedule` returns, its tries pass `queueTest` and the runner returns a
row for every sequence. -/
theorem engineStep (h : CallInv config x.ops) (hs : x.sched.schedule = (.ok r, s))
    (hpass : x.sched.prefillPasses queueTest = true) {rows : List (List (List ℤ))}
    (hrows : s.isKvOnly r = true ∨ r.rowsMatch rows = true) (logprobs : List (List (List ℚ))) :
    CallInv config (x.step rows logprobs).ops := by
  have h₁ := h.served hs hpass
  have hkv : (s.completeSwaps r).isKvOnly r = s.isKvOnly r := by
    unfold isKvOnly
    rw [h₁.config, ← (h.schedule hpass hs).config]
  have hran : CallInv config ⟨(s.completeSwaps r).runScheduled r rows logprobs, none, x.live⟩ := by
    unfold runScheduled
    split
    case isTrue =>
      exact ⟨h₁.config, h₁.one, h₁.reserved, h₁.fresh, fun _ h => (by cases h), fun _ h => (by cases h)⟩
    case isFalse hnot =>
      exact h₁.postprocess rfl (hrows.resolve_left fun hk => hnot (hkv.trans hk)) logprobs
  have hf := recordCompleteStep_frame ((s.completeSwaps r).runScheduled r rows logprobs) r.dpSeqIds x.trackRunning
    x.previousRunning
  have hfin := hran.congr hf.toSameQueues fun id _ =>
    unfinished_congr (fun _ _ hab => hab.status) hf.table id
  unfold EngineState.ops
  rw [EngineState.step_sched hs]
  exact hfin

/-- The other events of the engine keep the queues. -/
theorem engineEvent {x' : EngineState} {op : EngineOp} (h : CallInv config x.ops) (hstep : EngineState.Step x op x')
    (hop : ∀ rows logprobs, op ≠ .step rows logprobs) : CallInv config x'.ops := by
  have hadd : ∀ {seq : Sequence} {x' : EngineState}, seq.status ≠ .finished → x.add seq = some x' →
      CallInv config x'.ops := by
    intro seq x' hseq hx
    refine h.add hseq ?_
    unfold EngineState.add at hx
    unfold OpState.add
    split at hx
    case isTrue => cases hx
    case isFalse hfree =>
      cases hx
      exact if_neg hfree
  cases hstep with
  | added request hx => exact hadd (by simp [requestToSequence, Sequence.new]) hx
  | handedOver request hover hx =>
    refine hadd ?_ hx
    simp only [WireRequestMigrate.handedOver, Bool.and_eq_true, decide_eq_true_eq] at hover
    simp [migrateRequestToSequence, hover.1.1.1]
  | stepped rows logprobs => exact absurd rfl (hop rows logprobs)
  | aborted seqId => exact h.abort rfl
  | freed hmig => exact h.freeMigrated hmig
  | toggled => exact h.swapFrame (SwapFrame.cache _ _)

end CallInv

/-- The step that comes next: `schedule` returns, and the runner returns a row for every sequence. -/
def EngineState.answered [Xxh3] (x : EngineState) (rows : List (List (List ℤ))) : Bool :=
  match x.sched.schedule with
  | (.ok r, s) => s.isKvOnly r || r.rowsMatch rows
  | (.error _, _) => false

theorem EngineState.exists_of_answered [Xxh3] {x : EngineState} {rows : List (List (List ℤ))}
    (h : x.answered rows = true) :
    ∃ r s, x.sched.schedule = (.ok r, s) ∧ (s.isKvOnly r = true ∨ r.rowsMatch rows = true) := by
  unfold answered at h
  split at h
  case h_1 r s hs => exact ⟨r, s, hs, Bool.or_eq_true_iff.1 h⟩
  case h_2 => cases h

end NanoEngine
