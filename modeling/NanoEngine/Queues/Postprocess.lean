import NanoEngine.Queues.Passes
import NanoEngine.Scheduler.Postprocess

/-!
# NanoEngine.Queues.Postprocess — postprocessing keeps every live sequence in one queue

`postprocess_impl` takes the sequences of its result out of `running` and puts each of them into `prefilling`,
`to_be_migrated` or `running` again, or finishes it.
-/

namespace NanoEngine

open Counting Scheduler PrefillState

variable {L : Finset ℕ} {extra : List ℕ}

namespace Scheduler

variable {s : Scheduler}

/-- The tokens applied leave a sequence unfinished: only its placement finishes it. -/
theorem PostAppended.status [Xxh3] {seqId : ℕ} {seq seq' : Sequence} {tokens : List ℤ} {logprobs : List ℚ}
    {s' : Scheduler} (h : PostAppended seqId seq tokens logprobs s s' seq') (hseq : seq.status ≠ .finished) :
    seq'.status ≠ .finished := by
  rw [h.entry, (appendTokens_appends s _ tokens logprobs).status]
  split
  · simp
  · exact hseq

theorem PostAppended.queueCount [Xxh3] {seqId : ℕ} {seq seq' : Sequence} {tokens : List ℤ} {logprobs : List ℚ}
    {s' : Scheduler} (h : PostAppended seqId seq tokens logprobs s s' seq') (id : ℕ) :
    queueCount s' id = queueCount s id := by
  unfold NanoEngine.Scheduler.queueCount Scheduler.dp
  rw [h.config, h.waiting, h.waitingMigration, h.running, h.prefilling, h.toBeMigrated]

/-- Overwriting the entry of one sequence by one of unfinished status. -/
theorem unfinished_update (seqId : ℕ) (seq : Sequence) (hseq : seq.status ≠ .finished)
    (hlive : s.unfinished seqId = true) {s' : Scheduler}
    (ht : s'.seqTable = Function.update s.seqTable seqId (some seq)) (id : ℕ) :
    s'.unfinished id = s.unfinished id := by
  by_cases hid : id = seqId
  · subst hid
    rw [hlive]
    unfold unfinished
    simp [ht, hseq]
  · unfold unfinished
    rw [ht, Function.update_of_ne hid]

end Scheduler

namespace OneQueue

variable {s : Scheduler} {d seqId : ℕ} [Xxh3]

theorem postprocessPlace (h : OneQueue L (seqId :: extra) s) (hd : d < s.dp) (seq : Sequence) (hitTerminal : Bool) :
    OneQueue L extra (s.postprocessPlace d seqId seq hitTerminal) := by
  obtain ⟨hlive, hzero, -⟩ := h.head_live
  unfold Scheduler.postprocessPlace
  split
  · refine h.finish (fun _ => rfl) ?_ fun id hid => ?_
    · obtain ⟨old, hold, -⟩ := exists_of_unfinished hlive
      simp [Scheduler.unfinished, releaseSeq, setCache, updateSeq, hold]
    · simp [Scheduler.unfinished, releaseSeq, setCache, updateSeq, Function.update_of_ne hid]
  · split
    · have hf : Frame (fun _ b => b.status = .toBeMigrated) seqId s
          (s.updateSeq seqId (fun seq => { seq with status := .toBeMigrated })) := Frame.of_updateSeq _ _ fun _ => rfl
      refine h.requeue (fun id => ?_) fun id => hf.unfinished (fun _ b hb => by rw [hb]; decide) hlive id
      -- the id is in no queue, so it is not waiting for its migration yet
      have hnone : (s.toBeMigrated seqId).isSome = false := by
        unfold queueCount at hzero
        by_contra hsome
        simp only [Bool.not_eq_false] at hsome
        simp [hsome] at hzero
      by_cases hid : id = seqId
      · subst hid
        unfold queueCount Scheduler.dp at *
        simp [updateSeq, hnone]
      · have hsing : [seqId].count id = 0 := List.count_eq_zero.2 (by simpa using hid)
        unfold queueCount Scheduler.dp at *
        simp [updateSeq, hsing, Function.update_of_ne hid]
    · have hf₁ := (cacheEnsureBlocksForSeq_frame s seqId false).cacheFrame.swapFrame
      have h₁ := hf₁.oneQueue h
      have hf₂ : Frame (fun _ b => b.status = .running) seqId (s.cacheEnsureBlocksForSeq seqId false).2
          ((s.cacheEnsureBlocksForSeq seqId false).2.updateSeq seqId (fun seq => { seq with status := .running })) :=
        Frame.of_updateSeq _ _ fun _ => rfl
      have hd₁ : d < ((s.cacheEnsureBlocksForSeq seqId false).2.updateSeq seqId
          (fun seq => { seq with status := .running })).dp := by
        unfold Scheduler.dp at *
        rw [hf₂.config, hf₁.config]
        exact hd
      refine h₁.requeue (fun id => ?_) fun id =>
        hf₂.unfinished (fun _ b hb => by rw [hb]; decide) h₁.head_live.1 id
      dsimp only
      rw [queueCount_pushRunning hd₁, queueCount_congr hf₂.toSameQueues]

theorem postprocessSeq (h : OneQueue L (seqId :: extra) s) (hreal : seqId ∉ s.dummySeqIds) (hd : d < s.dp)
    (tokens : List ℤ) (logprobs : List ℚ) : OneQueue L extra (s.postprocessSeq d seqId (some tokens) logprobs) := by
  obtain ⟨hlive, -, -⟩ := h.head_live
  obtain ⟨seq, hseq, hstatus⟩ := exists_of_unfinished hlive
  unfold Scheduler.postprocessSeq
  rw [if_neg hreal, hseq]
  dsimp only
  split
  · -- a chunk was computed, more is to come
    have hf₁ : SwapFrame s (s.commitHbmBlocks seqId seq.numTokens) :=
      (commitHbmBlocks_frame s seqId _).hostFrame.cacheFrame.swapFrame
    have h₁ := hf₁.oneQueue h
    have hf₂ : Frame (fun _ b => b.status = .prefilling) seqId (s.commitHbmBlocks seqId seq.numTokens)
        ((s.commitHbmBlocks seqId seq.numTokens).updateSeq seqId (fun seq => { seq with status := .prefilling })) :=
      Frame.of_updateSeq _ _ fun _ => rfl
    refine h₁.requeue (fun id => ?_) fun id => hf₂.unfinished (fun _ b hb => by rw [hb]; decide) h₁.head_live.1 id
    rw [queueCount_pushPrefilling, queueCount_congr hf₂.toSameQueues]
    unfold Scheduler.dp at *
    rw [hf₂.config, hf₁.config]
    exact hd
  · have hspec := postprocessAppend_spec s seqId seq tokens logprobs hseq
    have h₁ : OneQueue L (seqId :: extra) (s.postprocessAppend seqId seq tokens logprobs).2 :=
      h.move (fun id => by rw [hspec.queueCount]) fun id _ =>
        unfinished_update seqId _ (hspec.status hstatus) hlive hspec.table id
    refine h₁.postprocessPlace ?_ _ _
    unfold Scheduler.dp at *
    rwa [hspec.config]

/-! ## The loops -/

theorem postprocessGroup (ids : List ℕ) {rows : List (List ℤ)} (hrows : rows.length = ids.length)
    (logprobs : List (List ℚ)) (h : OneQueue L (s.real ids ++ extra) s) (hd : d < s.dp) :
    OneQueue L extra (Scheduler.postprocessGroup d ids rows logprobs s) ∧
      (Scheduler.postprocessGroup d ids rows logprobs s).config = s.config ∧
      (Scheduler.postprocessGroup d ids rows logprobs s).dummySeqIds = s.dummySeqIds := by
  induction ids generalizing rows logprobs s with
  | nil => exact ⟨h, rfl, rfl⟩
  | cons seqId ids ih =>
    obtain ⟨row, rows, rfl⟩ : ∃ row rest, rows = row :: rest := List.exists_cons_of_length_pos (by simp [hrows])
    unfold Scheduler.postprocessGroup
    have hf := postprocessSeq_frame s d seqId (some row) (logprobs.head?.getD [])
    have h₁ : OneQueue L (s.real ids ++ extra) (s.postprocessSeq d seqId (some row) (logprobs.head?.getD [])) := by
      by_cases hreal : seqId ∈ s.dummySeqIds
      · unfold Scheduler.postprocessSeq
        rw [if_pos hreal]
        simpa [real, hreal] using h
      · refine OneQueue.postprocessSeq ?_ hreal hd row _
        simpa [real, hreal] using h
    obtain ⟨h₂, hc₂, hdum₂⟩ := ih (by simpa using hrows) logprobs.tail
      (s := s.postprocessSeq d seqId (some row) (logprobs.head?.getD []))
      (by unfold real at *; rwa [hf.dummySeqIds]) (by unfold Scheduler.dp at *; rwa [hf.config])
    exact ⟨h₂, hc₂.trans hf.config, hdum₂.trans hf.dummySeqIds⟩

theorem postprocessGroups (k : ℕ) (groups : List (List ℕ)) {rows : List (List (List ℤ))}
    (hrows : rows.map List.length = groups.map List.length) (logprobs : List (List (List ℚ)))
    (h : OneQueue L (s.real groups.flatten) s) (hk : k + groups.length ≤ s.dp * s.group) :
    OneQueue L [] (Scheduler.postprocessGroups k groups rows logprobs s) ∧
      (Scheduler.postprocessGroups k groups rows logprobs s).config = s.config ∧
      (Scheduler.postprocessGroups k groups rows logprobs s).dummySeqIds = s.dummySeqIds := by
  induction groups generalizing k rows logprobs s with
  | nil => exact ⟨h, rfl, rfl⟩
  | cons ids groups ih =>
    obtain ⟨row, rows, rfl⟩ : ∃ row rest, rows = row :: rest :=
      List.exists_cons_of_length_pos (by have := congrArg List.length hrows; simp at this; omega)
    simp only [List.map_cons, List.cons.injEq] at hrows
    rw [List.length_cons] at hk
    have hd : k / s.group < s.dp := Nat.div_lt_of_lt_mul (by rw [Nat.mul_comm]; omega)
    unfold Scheduler.postprocessGroups
    dsimp only [List.head?_cons, List.tail_cons]
    have hsplit : OneQueue L (s.real ids ++ s.real groups.flatten) s := by
      simpa [real, List.filter_append] using h
    obtain ⟨h₁, hc₁, hdum₁⟩ := OneQueue.postprocessGroup (d := k / s.group) ids hrows.1
      (logprobs.head?.getD []) hsplit hd
    obtain ⟨h₂, hc₂, hdum₂⟩ := ih (k + 1) hrows.2 logprobs.tail
      (s := Scheduler.postprocessGroup (k / s.group) ids row (logprobs.head?.getD []) s)
      (by unfold real at *; rwa [hdum₁]) (by unfold Scheduler.dp Scheduler.group at *; rw [hc₁]; omega)
    exact ⟨h₂, hc₂.trans hc₁, hdum₂.trans hdum₁⟩

end OneQueue

end NanoEngine
