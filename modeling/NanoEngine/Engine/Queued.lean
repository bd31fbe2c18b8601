import NanoEngine.Engine.Rules
import NanoEngine.Queues.Engine

/-!
# NanoEngine.Engine.Queued — only live sequences are queued

* `queued s`: the ids in a queue of the scheduler.
* `LiveIn L st`, `DecodeLive L st`: what a pass has queued or scheduled is in `L`.
-/

namespace NanoEngine

namespace Scheduler

/-- The ids in a queue. -/
def queued (s : Scheduler) : Set ℕ :=
  {id | id ∈ s.waiting ∨ id ∈ s.waitingMigration ∨ (∃ d, id ∈ s.running d) ∨ ∃ d, id ∈ s.prefilling d}

variable {s s' : Scheduler} {d v : ℕ}

theorem mem_queued_running {id : ℕ} (h : id ∈ s.running d) : id ∈ s.queued := .inr (.inr (.inl ⟨d, h⟩))

theorem mem_queued_prefilling {id : ℕ} (h : id ∈ s.prefilling d) : id ∈ s.queued := .inr (.inr (.inr ⟨d, h⟩))

theorem SameQueues.queued (h : SameQueues s s') : s'.queued = s.queued := by
  unfold Scheduler.queued
  rw [h.waiting, h.waitingMigration, h.running, h.prefilling]

/-- A preempted sequence changes its queue. -/
theorem Preempted.queued (h : Preempted d v s s') (hv : v ∈ s.queued) : s'.queued ⊆ s.queued := by
  rintro id (hid | hid | ⟨d', hid⟩ | ⟨d', hid⟩)
  · have hmem : id = v ∨ id ∈ s.waiting := by
      rcases h.waiting with hw | hw
      · rw [hw] at hid
        exact List.mem_cons.1 hid
      · rw [hw] at hid
        simpa [or_comm] using hid
    rcases hmem with rfl | hid
    · exact hv
    · exact .inl hid
  · rw [h.waitingMigration] at hid
    exact .inr (.inl hid)
  · rw [h.running] at hid
    exact mem_queued_running (mem_dropRunning.1 hid).1
  · rw [h.prefilling] at hid
    exact mem_queued_prefilling hid

theorem queued_pushRunning (s : Scheduler) (d v : ℕ) : (s.pushRunning d v).queued ⊆ insert v s.queued := by
  rintro id (hid | hid | ⟨d', hid⟩ | ⟨d', hid⟩)
  · exact .inr (.inl hid)
  · exact .inr (.inr (.inl hid))
  · rcases mem_pushRunning.1 hid with hid | ⟨-, rfl⟩
    · exact .inr (mem_queued_running hid)
    · exact .inl rfl
  · exact .inr (mem_queued_prefilling hid)

theorem queued_pushPrefilling (s : Scheduler) (d v : ℕ) : (s.pushPrefilling d v).queued ⊆ insert v s.queued := by
  rintro id (hid | hid | ⟨d', hid⟩ | ⟨d', hid⟩)
  · exact .inr (.inl hid)
  · exact .inr (.inr (.inl hid))
  · exact .inr (mem_queued_running hid)
  · unfold pushPrefilling at hid
    by_cases hd : d' = d
    · subst hd
      simp only [Function.update_self, List.mem_append, List.mem_singleton] at hid
      rcases hid with hid | rfl
      · exact .inr (mem_queued_prefilling hid)
      · exact .inl rfl
    · simp only [Function.update_of_ne hd] at hid
      exact .inr (mem_queued_prefilling hid)

theorem queued_markScheduled (s : Scheduler) (v : ℕ) : (s.markScheduled v).queued = s.queued := rfl

variable [Xxh3]

theorem queued_tryAllocatePrefill (s : Scheduler) (seqId d : ℕ) (batchSeqs batchTokens : ℕ → ℤ) :
    (s.tryAllocatePrefill seqId d batchSeqs batchTokens).2.queued ⊆ s.queued := by
  have hprep := (prepareAdmission_frame s seqId d batchSeqs batchTokens).toSameQueues
  unfold tryAllocatePrefill
  split
  case h_1 heq =>
    rw [heq] at hprep
    exact hprep.queued.subset
  case h_2 a s₁ heq =>
    rw [heq] at hprep
    have hres := (reserveAdmission_frame s₁ seqId d a).toSameQueues
    split
    case h_1 e s₂ heq₂ =>
      rw [heq₂] at hres
      have hcancel := hprep.trans (hres.trans (cancelAdmission_frame s₂ seqId).toSameQueues)
      unfold preemptOneForAllocation
      cases hv : (s₂.cancelAdmission seqId).preemptVictim d seqId with
      | none => exact hcancel.queued.subset
      | some victim =>
        have hrun := (preemptVictim_mem hv).1
        exact ((preemptImpl_spec _ d victim).queued (mem_queued_running hrun)).trans hcancel.queued.subset
    case h_2 s₂ heq₂ =>
      rw [heq₂] at hres
      have hfin := hprep.trans (hres.trans (finishAdmission_frame s₂ seqId a.master a.fullLen a.cached).toSameQueues)
      split
      case h_1 heq₃ =>
        rw [heq₃] at hfin
        exact hfin.queued.subset
      case h_2 heq₃ =>
        rw [heq₃] at hfin
        exact hfin.queued.subset

theorem queued_cacheTryRestoreHostBlocks (s : Scheduler) (seqId d : ℕ) :
    (s.cacheTryRestoreHostBlocks seqId d).2.queued = s.queued := by
  unfold cacheTryRestoreHostBlocks
  split
  case h_1 => rfl
  case h_2 =>
    dsimp only
    split
    case isTrue => rfl
    case isFalse =>
      split
      case isTrue => rfl
      case isFalse =>
        split
        case isTrue => rfl
        case isFalse => split <;> rfl

/-- What a postprocessed sequence is put into. -/
theorem queued_postprocessSeq (s : Scheduler) (d seqId : ℕ) (row : Option (List ℤ)) (logprobs : List ℚ) :
    (s.postprocessSeq d seqId row logprobs).queued ⊆ insert seqId s.queued := by
  have hf := s.postprocessSeq_frame d seqId row logprobs
  have hqueued {d' id : ℕ} := @postprocessSeq_queued _ s d seqId row logprobs d' id
  have hcases : ∀ {d' id : ℕ}, (id ∈ s.running d' ∨ id ∈ s.prefilling d') ∨
    id = seqId ∧ seqId ∉ s.dummySeqIds →
      id ∈ insert seqId s.queued := by
    rintro d' id ((hrun | hpre) | ⟨rfl, -⟩)
    · exact .inr (mem_queued_running hrun)
    · exact .inr (mem_queued_prefilling hpre)
    · exact .inl rfl
  rintro id (hid | hid | ⟨d', hid⟩ | ⟨d', hid⟩)
  · rw [hf.waiting] at hid
    exact .inr (.inl hid)
  · rw [hf.waitingMigration] at hid
    exact .inr (.inr (.inl hid))
  · exact hcases (hqueued (.inl hid))
  · exact hcases (hqueued (.inr hid))

end Scheduler

open Scheduler

/-! ## The prefill pass -/

/-- Queues and batches hold ids of `L` only. -/
structure PrefillState.LiveIn (L : Finset ℕ) (st : PrefillState) : Prop where
  queued : ∀ id ∈ st.sched.queued, id ∈ L
  scheduled : ∀ d, ∀ id ∈ st.scheduled d, id ∈ L

namespace PrefillState.LiveIn

variable {L : Finset ℕ} {st : PrefillState} {s : Scheduler} {seqId dpIdx : ℕ}

theorem withSched (h : st.LiveIn L) (hs : s.queued ⊆ st.sched.queued) : (st.withSched s).LiveIn L :=
  ⟨fun id hid => h.queued id (hs hid), h.scheduled⟩

theorem head (h : st.LiveIn L) (hhead : st.queue.head? = some seqId) : seqId ∈ L := by
  have hmem := List.mem_of_mem_head? (Option.mem_def.2 hhead)
  unfold PrefillState.queue at hmem
  split at hmem
  case isTrue => exact h.queued seqId (.inr (.inl hmem))
  case isFalse => exact h.queued seqId (.inl hmem)

theorem pushRunning (h : st.LiveIn L) (hlive : seqId ∈ L) :
    (st.withSched (st.sched.pushRunning dpIdx seqId)).LiveIn L := by
  refine ⟨fun id hid => ?_, h.scheduled⟩
  rcases queued_pushRunning _ _ _ hid with rfl | hid
  · exact hlive
  · exact h.queued id hid

theorem join (h : st.LiveIn L) (hlive : seqId ∈ L) (groupId : ℕ) (newTokens : ℤ) :
    (st.join dpIdx groupId seqId newTokens).LiveIn L := by
  have hpush : (st.withSched (st.sched.pushRunning dpIdx seqId)).LiveIn L := h.pushRunning hlive
  refine ⟨hpush.queued, fun d id hid => ?_⟩
  unfold PrefillState.join at hid
  by_cases hd : d = dpIdx
  · subst hd
    simp only [Function.update_self, List.mem_append, List.mem_singleton] at hid
    rcases hid with hid | rfl
    · exact h.scheduled d id hid
    · exact hlive
  · simp only [Function.update_of_ne hd] at hid
    exact h.scheduled d id hid

theorem popQueue (h : st.LiveIn L) : st.popQueue.LiveIn L := by
  refine h.withSched ?_
  split
  case isTrue =>
    rintro id (hid | hid | hid | hid)
    · exact .inl hid
    · exact .inr (.inl (List.mem_of_mem_tail hid))
    · exact .inr (.inr (.inl hid))
    · exact .inr (.inr (.inr hid))
  case isFalse =>
    rintro id (hid | hid | hid | hid)
    · exact .inl (List.mem_of_mem_tail hid)
    · exact .inr (.inl hid)
    · exact .inr (.inr (.inl hid))
    · exact .inr (.inr (.inr hid))

theorem routeCandidates (h : st.LiveIn L) (seqId : ℕ) : (st.withSched (st.sched.routeCandidates seqId).2).LiveIn L :=
  h.withSched (st.sched.routeCandidates_frame seqId 0).toSameQueues.queued.subset

theorem tryRank [Xxh3] (h : st.LiveIn L) (hlive : seqId ∈ L) (dpIdx : ℕ) : (st.tryRank seqId dpIdx).2.LiveIn L := by
  unfold PrefillState.tryRank
  split
  case isTrue =>
    have hq := st.sched.queued_cacheTryRestoreHostBlocks seqId dpIdx
    split
    case h_1 e s heq =>
      rw [heq] at hq
      exact h.withSched hq.subset
    case h_2 s heq =>
      rw [heq] at hq
      exact (h.withSched hq.subset).popQueue.pushRunning hlive |>.withSched Set.Subset.rfl
    case h_3 s heq =>
      rw [heq] at hq
      exact h.withSched hq.subset
  case isFalse =>
    have hq := st.sched.queued_tryAllocatePrefill seqId dpIdx (st.numSeqs dpIdx) (st.numTokens dpIdx)
    unfold PrefillState.tryOn
    split
    case h_1 e s heq =>
      rw [heq] at hq
      exact h.withSched hq
    case h_2 newTokens s heq =>
      rw [heq] at hq
      exact ((h.withSched hq).popQueue.join hlive _ newTokens).withSched Set.Subset.rfl
    case h_3 s heq =>
      rw [heq] at hq
      exact h.withSched hq

theorem takePrefilling (h : st.LiveIn L) (dpIdx : ℕ) : (st.takePrefilling dpIdx).LiveIn L := by
  refine h.withSched ?_
  rintro id (hid | hid | hid | ⟨d, hid⟩)
  · exact .inl hid
  · exact .inr (.inl hid)
  · exact .inr (.inr (.inl hid))
  · by_cases hd : d = dpIdx
    · subst hd
      simp at hid
    · simp only [Function.update_of_ne hd] at hid
      exact mem_queued_prefilling hid

theorem continueSeq (h : st.LiveIn L) (hlive : seqId ∈ L) : (PrefillState.continueSeq dpIdx st seqId).LiveIn L := by
  unfold PrefillState.continueSeq
  split
  case h_1 => exact h
  case h_2 seq hseq =>
    dsimp only
    split
    case isTrue =>
      refine ⟨fun id hid => ?_, h.scheduled⟩
      rcases queued_pushPrefilling _ _ _ hid with rfl | hid
      · exact hlive
      · exact h.queued id hid
    case isFalse =>
      exact LiveIn.join (h.withSched (s := st.sched.updateSeq seqId _) Set.Subset.rfl) hlive _ _

end PrefillState.LiveIn

/-! ## The decode pass -/

structure DecodeState.LiveIn (L : Finset ℕ) (st : DecodeState) : Prop where
  queued : ∀ id ∈ st.sched.queued, id ∈ L
  skipped : ∀ id ∈ st.skipped, id ∈ L
  scheduled : ∀ id ∈ st.scheduled, id ∈ L

theorem DecodeState.LiveIn.decodeSeq [Xxh3] {L : Finset ℕ} {st : DecodeState} {seqId : ℕ} (h : st.LiveIn L)
    (hlive : seqId ∈ L) (dpIdx : ℕ) : (Scheduler.decodeSeq dpIdx st seqId).LiveIn L := by
  have hadd : ∀ {ids : List ℕ}, (∀ id ∈ ids, id ∈ L) → ∀ id ∈ ids ++ [seqId], id ∈ L := by
    intro ids hids id hid
    rcases List.mem_append.1 hid with hid | hid
    · exact hids id hid
    · rw [List.mem_singleton.1 hid]
      exact hlive
  have hgrow := (st.sched.cacheEnsureBlocksForSeq_frame seqId false).toSameQueues
  unfold Scheduler.decodeSeq
  dsimp only
  split
  case isTrue => exact ⟨h.queued, hadd h.skipped, h.scheduled⟩
  case isFalse =>
    split
    case h_1 e s heq =>
      rw [heq] at hgrow
      have hpre := preemptImpl_spec s dpIdx seqId
      refine ⟨fun id hid => ?_, h.skipped, h.scheduled⟩
      -- the sequence itself is requeued, the others were queued before
      have hmem : id = seqId ∨ id ∈ s.queued := by
        rcases hid with hid | hid | ⟨d, hid⟩ | ⟨d, hid⟩
        · rcases hpre.waiting with hw | hw
          · rw [hw] at hid
            exact (List.mem_cons.1 hid).imp_right .inl
          · rw [hw] at hid
            exact (List.mem_append.1 hid).symm.imp List.mem_singleton.1 .inl
        · exact .inr (.inr (.inl (hpre.waitingMigration ▸ hid)))
        · rw [hpre.running] at hid
          exact .inr (mem_queued_running (mem_dropRunning.1 hid).1)
        · exact .inr (mem_queued_prefilling (hpre.prefilling ▸ hid))
      rcases hmem with rfl | hid
      · exact hlive
      · exact h.queued id (hgrow.queued ▸ hid)
    case h_2 s heq =>
      rw [heq] at hgrow
      exact ⟨fun id hid => h.queued id (hgrow.queued ▸ hid), hadd h.skipped, hadd h.scheduled⟩

end NanoEngine
