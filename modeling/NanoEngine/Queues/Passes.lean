import NanoEngine.Queues.Invariant

/-!
# NanoEngine.Queues.Passes — continuations, decode pass and postprocessing keep the queues

Each pass takes ids out of a queue into a local list and puts them back one by one; `OneQueue` with that list as `extra`
is the invariant of its loop.
-/

namespace NanoEngine

open Counting Scheduler PrefillState

variable {L : Finset ℕ} {extra : List ℕ}

theorem Scheduler.exists_of_unfinished {s : Scheduler} {id : ℕ} (h : s.unfinished id = true) :
    ∃ seq, s.seqTable id = some seq ∧ seq.status ≠ .finished := by
  unfold Scheduler.unfinished at h
  cases hs : s.seqTable id with
  | none => rw [hs] at h; cases h
  | some seq => exact ⟨seq, rfl, by simpa [hs] using h⟩

/-! ## Continuations -/

theorem config_continueSeq (d : ℕ) (st : PrefillState) (seqId : ℕ) :
    (continueSeq d st seqId).sched.config = st.sched.config := by
  unfold continueSeq
  split
  · rfl
  · dsimp only
    split <;> rfl

theorem config_continueRank (d : ℕ) (st : PrefillState) : (st.continueRank d).sched.config = st.sched.config := by
  have hfold : ∀ (ids : List ℕ) (st' : PrefillState),
      (ids.foldl (continueSeq d) st').sched.config = st'.sched.config := by
    intro ids
    induction ids with
    | nil => intro st'; rfl
    | cons seqId ids ih => intro st'; exact (ih _).trans (config_continueSeq d st' seqId)
  exact hfold _ _

theorem config_continueAll (st : PrefillState) : st.continueAll.sched.config = st.sched.config := by
  have hfold : ∀ (ranks : List ℕ) (st' : PrefillState),
      (ranks.foldl continueRank st').sched.config = st'.sched.config := by
    intro ranks
    induction ranks with
    | nil => intro st'; rfl
    | cons d ranks ih => intro st'; exact (ih _).trans (config_continueRank d st')
  exact hfold _ _

namespace AdmitInv

variable {st : PrefillState} {d seqId : ℕ}

/-- A sequence taken from `prefilling` is put on a queue again. -/
theorem continueSeq (h : AdmitInv L (seqId :: extra) st) (hd : d < st.sched.dp) :
    AdmitInv L extra (continueSeq d st seqId) := by
  obtain ⟨seq, hseq, -⟩ := exists_of_unfinished h.one.head_live.1
  unfold PrefillState.continueSeq
  rw [hseq]
  dsimp only
  split
  · exact ⟨h.one.requeue (queueCount_pushPrefilling hd seqId) fun _ => rfl, h.dummies, h.nodup, h.running⟩
  · have hf : ∀ newTokens dispatch, Frame (fun a b => b.status = a.status) seqId st.sched
        (st.sched.updateSeq seqId (fun seq => seq.continueWith newTokens dispatch)) :=
      fun _ _ => Frame.of_updateSeq _ _ fun _ => rfl
    exact AdmitInv.join _ _ (h.congr (hf _ _).toSameQueues fun id _ =>
      unfinished_congr (fun _ _ hab => hab) ((hf _ _).table fun _ => rfl) id) hd

theorem continueSeqs (ids : List ℕ) (h : AdmitInv L (ids ++ extra) st) (hd : d < st.sched.dp) :
    AdmitInv L extra (ids.foldl (PrefillState.continueSeq d) st) := by
  induction ids generalizing st with
  | nil => exact h
  | cons seqId ids ih =>
    refine ih (AdmitInv.continueSeq h hd) ?_
    unfold Scheduler.dp at *
    rwa [config_continueSeq]

theorem continueRank (h : AdmitInv L [] st) (hd : d < st.sched.dp) : AdmitInv L [] (st.continueRank d) := by
  unfold PrefillState.continueRank
  refine continueSeqs _ ⟨h.one.move (fun id => ?_) fun _ _ => rfl, h.dummies, h.nodup, h.running⟩ hd
  have hq := queueCount_setPrefilling hd [] id
  rw [List.append_nil]
  simpa [takePrefilling, withSched] using hq

theorem continueAll (h : AdmitInv L [] st) : AdmitInv L [] st.continueAll := by
  have hfold : ∀ (ranks : List ℕ) (st' : PrefillState), st'.sched.config = st.sched.config →
      (∀ d ∈ ranks, d < st.sched.dp) → AdmitInv L [] st' →
        AdmitInv L [] (ranks.foldl PrefillState.continueRank st') := by
    intro ranks
    induction ranks with
    | nil => intro st' _ _ h'; exact h'
    | cons d ranks ih =>
      intro st' hc hlt h'
      refine ih _ ((config_continueRank d st').trans hc) (fun d' hd' => hlt d' (List.mem_cons_of_mem _ hd')) ?_
      refine h'.continueRank ?_
      have := hlt d List.mem_cons_self
      unfold Scheduler.dp at *
      rwa [hc]
  exact hfold _ st rfl (fun d hd => List.mem_range.1 hd) h

end AdmitInv

/-! ## Prefill scheduling -/

/-- The sequences of a list that are no dummies. -/
def Scheduler.real (s : Scheduler) (ids : List ℕ) : List ℕ := ids.filter (fun id => decide (id ∉ s.dummySeqIds))

theorem Scheduler.mem_real {s : Scheduler} {ids : List ℕ} {id : ℕ} :
    id ∈ s.real ids ↔ id ∈ ids ∧ id ∉ s.dummySeqIds := by
  simp [real]

/-- Every sequence of the result runs on its rank, once; the dummies are nowhere. -/
def ResultRuns (s : Scheduler) (ranks : List ℕ) (dpSeqIds : List (List ℕ)) : Prop :=
  List.Forall₂ (fun d ids => (s.real ids).Nodup ∧ ∀ id ∈ s.real ids, id ∈ s.running d) ranks dpSeqIds

/-- More dummies, and the running queues of these ranks as before. -/
theorem ResultRuns.mono {s s' : Scheduler} {ranks : List ℕ} {dpSeqIds : List (List ℕ)}
    (h : ResultRuns s ranks dpSeqIds)
    (hdum : s.dummySeqIds ⊆ s'.dummySeqIds) (hrun : ∀ d ∈ ranks, s'.running d = s.running d) :
    ResultRuns s' ranks dpSeqIds := by
  unfold ResultRuns at *
  induction h with
  | nil => exact .nil
  | @cons d ids ranks rest hd _ ih =>
    refine .cons ?_ (ih fun d' hd' => hrun d' (List.mem_cons_of_mem _ hd'))
    have hsub : List.Sublist (s'.real ids) (s.real ids) :=
      List.monotone_filter_right ids fun id hid => decide_eq_true fun hmem => of_decide_eq_true hid (hdum hmem)
    rw [hrun d List.mem_cons_self]
    exact ⟨hd.1.sublist hsub, fun id hid => hd.2 id (hsub.mem hid)⟩

/-- What a schedule pass leaves behind: the queues hold every live id once, the result runs. -/
structure PassInv (L : Finset ℕ) (s : Scheduler) (ranks : List ℕ) (dpSeqIds : List (List ℕ)) : Prop where
  one : OneQueue L [] s
  dummies : ∀ id ∈ s.dummySeqIds, s.isReservedId id = true
  runs : ResultRuns s ranks dpSeqIds

section schedule

variable [Xxh3] {s s' : Scheduler}

/-- A prefill pass keeps every live sequence on one queue. -/
theorem schedulePrefill_passInv {prefill : List (List ℕ)} (hone : OneQueue L [] s)
    (hdum : ∀ id ∈ s.dummySeqIds, s.isReservedId id = true)
    (hpass : admitPasses queueTest (PrefillState.init s).continueAll.admissionFuel (PrefillState.init s).continueAll
      = true) (h : s.schedulePrefill = (.ok prefill, s')) :
    PassInv L s' (List.range s'.dp) prefill ∧ s'.config = s.config := by
  have hinit : AdmitInv L [] (PrefillState.init s) :=
    ⟨hone, hdum, fun _ => List.nodup_nil, by simp [PrefillState.init]⟩
  unfold schedulePrefill at h
  dsimp only at h
  split at h
  case h_1 => cases h
  case h_2 st hloop =>
    cases h
    have hsteps := admitLoop_steps (fun st seqId d ranks _ hW => (Bool.and_eq_true _ _ ▸ hW :
      victimFresh st seqId d ranks = true ∧ headSafe st seqId d ranks = true).2) hpass hloop
    have hinv : AdmitInv L [] st ∧ st.sched.config = s.config := by
      clear hloop
      induction hsteps with
      | refl => exact ⟨hinit.continueAll, config_continueAll _⟩
      | tail _ hstep ih => exact ⟨ih.1.step hstep, hstep.config.trans ih.2⟩
    refine ⟨⟨hinv.1.one, hinv.1.dummies, ?_⟩, hinv.2⟩
    refine List.forall₂_map_right_iff.2 (List.forall₂_same.2 fun d _ =>
      ⟨(hinv.1.nodup d).filter _, fun id hid => ?_⟩)
    exact hinv.1.running d id (mem_real.1 hid).1

/-! ## The decode pass -/

/-- The loop of the decode pass over the queue of one rank; `rest` is what is still to be looked at. -/
structure DecodeInv (L : Finset ℕ) (d : ℕ) (rest : List ℕ) (st : DecodeState) : Prop where
  one : OneQueue L (st.skipped ++ rest) st.sched
  dummies : ∀ id ∈ st.sched.dummySeqIds, st.sched.isReservedId id = true
  emptied : st.sched.running d = []
  nodup : st.scheduled.Nodup
  skipped : ∀ id ∈ st.scheduled, id ∈ st.skipped

/-- A decode step runs its sequence, or sends victims back to the waiting queue … -/
theorem DecodeInv.decodeSeq {d seqId : ℕ} {rest : List ℕ} {st : DecodeState} (h : DecodeInv L d (seqId :: rest) st)
    (hd : d < st.sched.dp) : DecodeInv L d rest (decodeSeq d st seqId) := by
  have hcount : ∀ id, (st.skipped ++ [seqId] ++ rest).count id = (st.skipped ++ seqId :: rest).count id :=
    fun id => by simp
  unfold Scheduler.decodeSeq
  dsimp only
  split
  · refine ⟨h.one.move (fun id => by rw [hcount]) fun _ _ => rfl, h.dummies, h.emptied, h.nodup, fun id hid => ?_⟩
    exact List.mem_append_left _ (h.skipped id hid)
  · have hf := (cacheEnsureBlocksForSeq_frame st.sched seqId false).cacheFrame.swapFrame
    have hle := h.one.le_one seqId
    rw [List.count_append, List.count_cons_self] at hle
    split
    -- no blocks: the sequence is preempted, to `waiting` or `waiting_migration`
    case h_1 e s₁ heq =>
      rw [heq] at hf
      replace hf : SwapFrame st.sched s₁ := hf
      have hone := hf.oneQueue h.one
      have hp := preemptImpl_spec s₁ d seqId
      have hd₁ : d < s₁.dp := by unfold Scheduler.dp at *; rwa [hf.config]
      have hempty : s₁.running d = [] := by rw [hf.running, h.emptied]
      have hlive : s₁.unfinished seqId = true := by
        refine (hone.live_of_pos ?_).2
        rw [List.count_append, List.count_cons_self]
        omega
      refine ⟨hone.move (fun id => ?_) fun id _ => hp.unfinished hlive id,
        fun id hid => (isReservedId_congr (hp.config.trans hf.config) id).trans
          (h.dummies id (hf.dummySeqIds ▸ hp.dummySeqIds ▸ hid)), ?_, h.nodup, h.skipped⟩
      · have hq := queueCount_preempted hd₁ hp id
        rw [hempty] at hq
        rw [List.count_append, List.count_append, count_cons_eq seqId id rest]
        simp only [List.count_nil, ite_self] at hq
        dsimp only
        omega
      · dsimp only
        rw [hp.running]
        unfold dropRunning
        simp [hempty]
    case h_2 s₁ heq =>
      rw [heq] at hf
      replace hf : SwapFrame st.sched s₁ := hf
      have hone := hf.oneQueue h.one
      have hm : Frame (fun a b => b.status = a.status) seqId s₁ (s₁.markScheduled seqId) :=
        Frame.of_updateSeq _ _ fun _ => rfl
      refine ⟨hone.move (fun id => ?_) fun id _ => ?_, fun id hid =>
        (isReservedId_congr hf.config id).trans (h.dummies id (hf.dummySeqIds ▸ hid)), ?_, ?_,
        fun id hid => ?_⟩
      · rw [hcount, queueCount_congr hm.toSameQueues]
      · exact unfinished_congr (fun _ _ hab => hab) (hm.table fun _ => rfl) id
      · rw [← h.emptied, ← hf.running]
        rfl
      · -- a scheduled id is also in `skipped`, so it is not met again
        refine List.nodup_append.2 ⟨h.nodup, List.nodup_singleton _, fun a ha b hb hab => ?_⟩
        have hmem := List.count_pos_iff.2 (h.skipped a ha)
        rw [List.mem_singleton.1 hb] at hab
        subst hab
        omega
      · rcases List.mem_append.1 hid with hid | hid
        · exact List.mem_append_left _ (h.skipped id hid)
        · exact List.mem_append_right _ hid

theorem config_decodeSeq (d : ℕ) (st : DecodeState) (seqId : ℕ) :
    (decodeSeq d st seqId).sched.config = st.sched.config ∧
      (decodeSeq d st seqId).sched.dummySeqIds = st.sched.dummySeqIds := by
  have hf := (cacheEnsureBlocksForSeq_frame st.sched seqId false).toSameQueues
  unfold decodeSeq
  dsimp only
  split
  · exact ⟨rfl, rfl⟩
  · split
    case h_1 s₁ heq =>
      rw [heq] at hf
      have hp := preemptImpl_spec s₁ d seqId
      exact ⟨hp.config.trans hf.config, hp.dummySeqIds.trans hf.dummySeqIds⟩
    case h_2 s₁ heq =>
      rw [heq] at hf
      exact ⟨hf.config, hf.dummySeqIds⟩

/-- … and so do all those of a rank. -/
theorem DecodeInv.decodeSeqs {d : ℕ} (ids : List ℕ) {st : DecodeState} (h : DecodeInv L d ids st)
    (hd : d < st.sched.dp) : DecodeInv L d [] (ids.foldl (Scheduler.decodeSeq d) st) := by
  induction ids generalizing st with
  | nil => exact h
  | cons seqId ids ih =>
    refine ih (h.decodeSeq hd) ?_
    unfold Scheduler.dp at *
    rwa [(config_decodeSeq d st seqId).1]

/-- The loop of the decode pass leaves the running queues of the other ranks alone, and its own one if that is empty. -/
theorem decodeSeqs_frame {d : ℕ} (ids : List ℕ) (st : DecodeState) :
    (ids.foldl (decodeSeq d) st).sched.config = st.sched.config ∧
      (ids.foldl (decodeSeq d) st).sched.dummySeqIds = st.sched.dummySeqIds ∧
      ∀ d', d' ≠ d ∨ st.sched.running d' = [] →
        (ids.foldl (decodeSeq d) st).sched.running d' = st.sched.running d' := by
  have hstep : ∀ (st : DecodeState) (seqId : ℕ) (d' : ℕ), d' ≠ d ∨ st.sched.running d' = [] →
      (decodeSeq d st seqId).sched.running d' = st.sched.running d' := by
    intro st seqId d' hd'
    have hf := (cacheEnsureBlocksForSeq_frame st.sched seqId false).running
    unfold decodeSeq
    dsimp only
    split
    · rfl
    · split
      case h_1 s₁ heq =>
        rw [heq] at hf
        dsimp only at hf ⊢
        rw [(preemptImpl_spec s₁ d seqId).running, ← hf]
        unfold dropRunning
        by_cases hdd : d' = d
        · subst hdd
          rw [← hf] at hd'
          simp [hd'.resolve_left fun hne => hne rfl]
        · exact Function.update_of_ne hdd _ _
      case h_2 s₁ heq =>
        rw [heq] at hf
        dsimp only at hf ⊢
        rw [← hf]
        rfl
  induction ids generalizing st with
  | nil => exact ⟨rfl, rfl, fun _ _ => rfl⟩
  | cons seqId ids ih =>
    obtain ⟨hc, hdum, hr⟩ := ih (decodeSeq d st seqId)
    obtain ⟨hc₁, hdum₁⟩ := config_decodeSeq d st seqId
    refine ⟨hc.trans hc₁, hdum.trans hdum₁, fun d' hd' => ?_⟩
    have hkeep := hstep st seqId d' hd'
    exact (hr d' (hkeep.symm ▸ hd')).trans hkeep

theorem decodeRank_passInv {d : ℕ} (hd : d < s.dp) (hone : OneQueue L [] s)
    (hdum : ∀ id ∈ s.dummySeqIds, s.isReservedId id = true)
    (hfresh : ∀ id ∈ L, s.isReservedId id = false) :
    PassInv L (s.decodeRank d).2 [d] [(s.decodeRank d).1] ∧ (s.decodeRank d).2.config = s.config ∧
      s.dummySeqIds ⊆ (s.decodeRank d).2.dummySeqIds ∧ ∀ d', d' ≠ d →
        (s.decodeRank d).2.running d' = s.running d' := by
  have hstart : DecodeInv L d (s.running d) (s.decodeStart d) := by
    refine ⟨hone.move (fun id => ?_) fun _ _ => rfl, hdum, Function.update_self _ _ _, List.nodup_nil,
      by simp [decodeStart]⟩
    simpa [decodeStart] using queueCount_setRunning hd [] id
  have hfin := hstart.decodeSeqs _ hd
  obtain ⟨hconfig, hdums, hrunning⟩ := decodeSeqs_frame (d := d) (s.running d) (s.decodeStart d)
  unfold decodeRank
  dsimp only
  generalize (s.running d).foldl (Scheduler.decodeSeq d) (s.decodeStart d) = st at hfin hconfig hdums hrunning
  replace hconfig : st.sched.config = s.config := hconfig
  replace hdums : st.sched.dummySeqIds = s.dummySeqIds := hdums
  have hd₁ : d < st.sched.dp := by unfold Scheduler.dp at *; rwa [hconfig]
  -- the loop is done: its `skipped` is the queue of the rank again, and dummies fill the groups
  obtain ⟨he, hlisted⟩ := decodeDummies_enters (s := { st.sched with
    running := Function.update st.sched.running d st.skipped }) (d := d) st.groupLens (List.range st.sched.group) hd₁
    fun g hg => List.mem_range.1 hg
  have hone₁ : OneQueue L [] { st.sched with running := Function.update st.sched.running d st.skipped } := by
    refine hfin.one.move (fun id => ?_) fun _ _ => rfl
    have hq := queueCount_setRunning hd₁ st.skipped id
    rw [hfin.emptied] at hq
    simpa using hq
  have hfresh₁ : ∀ id ∈ L, st.sched.isReservedId id = false := fun id hid => by
    rw [isReservedId_congr hconfig]
    exact hfresh id hid
  change d < _ at hd₁
  generalize hrest : ({ st.sched with running := Function.update st.sched.running d st.skipped } : Scheduler) =
    s₁ at *
  have hgroup₁ : s₁.group = st.sched.group := by subst hrest; rfl
  have hrun₁ : ∀ d', s₁.running d' = Function.update st.sched.running d st.skipped d' := by
    subst hrest; exact fun _ => rfl
  have hres₁ : ∀ id, s₁.isReservedId id = st.sched.isReservedId id := by subst hrest; exact fun _ => rfl
  have hdum₁ : s₁.dummySeqIds = s.dummySeqIds := by subst hrest; exact hdums
  have hconfig₁ : s₁.config = s.config := by subst hrest; exact hconfig
  rw [hgroup₁]
  generalize decodeDummies d st.groupLens (List.range st.sched.group) s₁ = D at he hlisted
  refine ⟨⟨he.oneQueue hone₁ fun id hid => (hres₁ id).trans (hfresh₁ id hid), fun id hid => ?_, ?_⟩,
    he.config.trans hconfig₁, hdum₁ ▸ he.kept, fun d' hd' => ?_⟩
  · rw [isReservedId_congr he.config]
    refine (he.reserved id hid).elim (fun hold => ?_) fun hres => hres
    rw [isReservedId_congr hconfig₁]
    exact hdum id (hdum₁ ▸ hold)
  · -- what is listed and no dummy was scheduled by the loop
    have hreal : D.2.real (st.scheduled ++ D.1) = D.2.real st.scheduled := by
      have hnone : D.1.filter (fun id => decide (id ∉ D.2.dummySeqIds)) = [] :=
        List.filter_eq_nil_iff.2 fun id hid => by simpa using hlisted id hid
      unfold real
      rw [List.filter_append, hnone, List.append_nil]
    refine .cons ?_ .nil
    rw [hreal]
    refine ⟨hfin.nodup.filter _, fun id hid => ?_⟩
    rw [he.running, hrun₁, Function.update_self]
    exact hfin.skipped id (mem_real.1 hid).1
  · rw [he.running, hrun₁, Function.update_of_ne hd', hrunning d' (.inl hd')]
    exact Function.update_of_ne hd' _ _

/-- The ranks follow one another, each with its own queues. -/
theorem decodeRanks_passInv {ranks : List ℕ} (hnodup : ranks.Nodup) (hranks : ∀ d ∈ ranks, d < s.dp)
    (hone : OneQueue L [] s) (hdum : ∀ id ∈ s.dummySeqIds, s.isReservedId id = true)
    (hfresh : ∀ id ∈ L, s.isReservedId id = false) :
    PassInv L (decodeRanks ranks s).2 ranks (decodeRanks ranks s).1 ∧ (decodeRanks ranks s).2.config = s.config ∧
      s.dummySeqIds ⊆ (decodeRanks ranks s).2.dummySeqIds ∧
      ∀ d, d ∉ ranks → (decodeRanks ranks s).2.running d = s.running d := by
  induction ranks generalizing s with
  | nil => exact ⟨⟨hone, hdum, .nil⟩, rfl, fun _ h => h, fun _ _ => rfl⟩
  | cons d ranks ih =>
    obtain ⟨hd, hnodup⟩ := List.nodup_cons.1 hnodup
    obtain ⟨h₁, hc₁, hk₁, hr₁⟩ := decodeRank_passInv (hranks d List.mem_cons_self) hone hdum hfresh
    have hranks₁ : ∀ d' ∈ ranks, d' < (s.decodeRank d).2.dp := by
      intro d' hd'
      have := hranks d' (List.mem_cons_of_mem _ hd')
      unfold Scheduler.dp at *
      rwa [hc₁]
    obtain ⟨h₂, hc₂, hk₂, hr₂⟩ := ih hnodup hranks₁ h₁.one h₁.dummies fun id hid => by
      rw [isReservedId_congr hc₁]
      exact hfresh id hid
    unfold decodeRanks
    dsimp only
    refine ⟨⟨h₂.one, h₂.dummies, .cons ?_ h₂.runs⟩, hc₂.trans hc₁,
      hk₁.trans hk₂, fun d' hd' => ?_⟩
    · have hmono := h₁.runs.mono hk₂ fun d' hd' => by rw [List.mem_singleton.1 hd', hr₂ d hd]
      exact (List.forall₂_cons.1 hmono).1
    · rw [hr₂ d' fun hm => hd' (List.mem_cons_of_mem _ hm), hr₁ d' fun heq => hd' (heq ▸ List.mem_cons_self)]

/-! ## A whole `schedule` call -/

omit [Xxh3] in
/-- The sequences of a result that are no dummies are live, hence known. -/
theorem PassInv.known {ranks : List ℕ} {dpSeqIds : List (List ℕ)} (h : PassInv L s ranks dpSeqIds)
    (hranks : ∀ d ∈ ranks, d < s.dp) :
    ∀ ids ∈ dpSeqIds, ∀ id ∈ ids, id ∉ s.dummySeqIds → id ∈ L ∧ s.unfinished id = true := by
  have hrun : ∀ (ranks : List ℕ) (dpSeqIds : List (List ℕ)), ResultRuns s ranks dpSeqIds →
      (∀ d ∈ ranks, d < s.dp) → ∀ ids ∈ dpSeqIds, ∀ id ∈ s.real ids, ∃ d < s.dp,
        id ∈ s.running d := by
    intro ranks dpSeqIds hr
    induction hr with
    | nil => simp
    | cons hd _ ih =>
      intro hlt ids hids id hid
      rcases List.mem_cons.1 hids with rfl | hids
      · exact ⟨_, hlt _ List.mem_cons_self, hd.2 id hid⟩
      · exact ih (fun d hd => hlt d (List.mem_cons_of_mem _ hd)) ids hids id hid
  intro ids hids id hid hreal
  obtain ⟨d, hd, hmem⟩ := hrun ranks dpSeqIds h.runs hranks ids hids id (mem_real.2 ⟨hid, hreal⟩)
  refine h.one.live_of_pos (Nat.add_pos_left ?_ _)
  have := List.count_pos_iff.2 hmem
  have := count_running_le hd id
  omega

/-- The filtered lists of a result hold the sequences of the ranks, each in the group that it belongs to. -/
structure Grouped (s : Scheduler) (r : ScheduleResult) : Prop where
  length : r.filteredDpGroupSeqIds.length = s.dp * s.group
  count : ∀ id, id ∉ s.dummySeqIds → r.filteredDpGroupSeqIds.flatten.count id = r.dpSeqIds.flatten.count id
  scheduled : ∀ d < s.dp, ∀ id, id ∉ s.dummySeqIds →
    (id ∈ scheduledIds s.group r.filteredDpGroupSeqIds d ↔ id ∈ r.dpSeqIds.getD d [])

omit [Xxh3] in
theorem Grouped.congr {r : ScheduleResult} (h : Grouped s r) (hconfig : s'.config = s.config)
    (hdum : s'.dummySeqIds = s.dummySeqIds) : Grouped s' r := by
  have hdp : s'.dp = s.dp := congrArg SchedulerConfig.dp hconfig
  have hgroup : s'.group = s.group := congrArg SchedulerConfig.group hconfig
  refine ⟨?_, ?_, ?_⟩
  · rw [hdp, hgroup]
    exact h.length
  · rw [hdum]
    exact h.count
  · rw [hdp, hgroup, hdum]
    exact h.scheduled

omit [Xxh3] in
/-- The lists of the groups of one rank, together. -/
theorem count_groups (s : Scheduler) (l : List ℕ) {id : ℕ} (hknown : id ∈ l → (s.seqTable id).isSome) :
    ((List.range s.group).map fun gid => l.filter (fun seqId =>
      ((s.seqTable seqId).map (fun seq => decide (s.groupOf seq = gid))).getD false)).flatten.count id =
        l.count id := by
  by_cases hid : id ∈ l
  · obtain ⟨seq, hseq⟩ := Option.isSome_iff_exists.1 (hknown hid)
    have hlt : s.groupOf seq < s.group := by
      have := s.config.one_le_group
      unfold groupOf Scheduler.group
      omega
    rw [count_filter_parts l id (s.groupOf seq) _ fun g => by simp [hseq, eq_comm], if_pos hlt]
  · rw [List.count_eq_zero.2 hid, List.count_eq_zero]
    simp only [List.mem_flatten, List.mem_map, not_exists, not_and]
    rintro _ ⟨gid, -, rfl⟩ hmem
    exact hid (List.mem_of_mem_filter hmem)

omit [Xxh3] in
/-- The groups of a result hold the sequences of its ranks, each once. -/
theorem makeScheduleResult_grouped {dpSeqIds : List (List ℕ)} (hlen : dpSeqIds.length = s.dp)
    (hknown : ∀ ids ∈ dpSeqIds, ∀ id ∈ ids, id ∉ s.dummySeqIds → (s.seqTable id).isSome)
    (isPrefill : Bool) :
    Grouped s (s.makeScheduleResult dpSeqIds isPrefill) := by
  have hrank : ∀ d id, id ∈ dpSeqIds.getD d [] → id ∉ s.dummySeqIds → (s.seqTable id).isSome := by
    intro d id hid hreal
    by_cases hd : d < dpSeqIds.length
    · rw [List.getD_eq_getElem?_getD, List.getElem?_eq_getElem hd, Option.getD_some] at hid
      exact hknown _ (List.getElem_mem hd) id hid hreal
    · rw [List.getD_eq_getElem?_getD, List.getElem?_eq_none (by omega)] at hid
      cases hid
  refine ⟨?_, fun id hid => ?_, fun d hd id hid => ?_⟩
  · simp [makeScheduleResult, List.length_flatMap]
  · change List.count id (List.flatten (List.flatMap _ _)) = List.count id dpSeqIds.flatten
    rw [count_flatten dpSeqIds id, hlen]
    unfold totalCount
    -- rank by rank, and in a rank every known id is in exactly one group
    induction s.dp with
    | zero => rfl
    | succ n ih =>
      rw [List.range_succ, List.flatMap_append, List.flatMap_singleton, List.flatten_append, List.count_append, ih,
        count_groups s _ fun hmem => hrank n id hmem hid, Finset.sum_range_succ]
  · -- group `gid` of rank `d` is list `d * group + gid`
    have hpos := s.config.one_le_group
    change 1 ≤ s.group at hpos
    have hget : ∀ gid < s.group, (s.makeScheduleResult dpSeqIds isPrefill).filteredDpGroupSeqIds.getD
        (d * s.group + gid) [] = (dpSeqIds.getD d []).filter (fun seqId =>
          ((s.seqTable seqId).map (fun seq => decide (s.groupOf seq = gid))).getD false) := by
      intro gid hgid
      rw [List.getD_eq_getElem?_getD]
      unfold makeScheduleResult
      dsimp only
      rw [getElem?_flatMap_range _ (fun _ => by simp) hd hgid]
      simp [hgid]
    have hlength : (s.makeScheduleResult dpSeqIds isPrefill).filteredDpGroupSeqIds.length = s.dp * s.group := by
      simp [makeScheduleResult, List.length_flatMap]
    unfold scheduledIds
    rw [hlength, List.mem_flatMap]
    change _ ↔ id ∈ dpSeqIds.getD d []
    constructor
    · rintro ⟨g, hg, hmem⟩
      simp only [List.mem_filter, List.mem_range, decide_eq_true_eq] at hg
      obtain ⟨-, rfl⟩ := hg
      rw [← Nat.div_add_mod' g s.group, hget _ (Nat.mod_lt _ hpos)] at hmem
      simpa [Nat.div_add_mod'] using List.mem_of_mem_filter hmem
    · intro hmem
      obtain ⟨seq, hseq⟩ := Option.isSome_iff_exists.1 (hrank d id hmem hid)
      have hlt : s.groupOf seq < s.group := by
        unfold groupOf
        omega
      refine ⟨d * s.group + s.groupOf seq, ?_, ?_⟩
      · have := Nat.mul_le_mul_right s.group (Nat.succ_le_of_lt hd)
        rw [Nat.succ_mul] at this
        simp only [List.mem_filter, List.mem_range, decide_eq_true_eq]
        exact ⟨by omega, by rw [Nat.mul_comm, Nat.mul_add_div (by omega), Nat.div_eq_of_lt hlt, Nat.add_zero]⟩
      · rw [hget _ hlt]
        exact List.mem_filter.2 ⟨hmem, by simp [hseq]⟩

omit [Xxh3] in
theorem PassInv.grouped {dpSeqIds : List (List ℕ)} (h : PassInv L s (List.range s.dp) dpSeqIds) (isPrefill : Bool) :
    Grouped s (s.makeScheduleResult dpSeqIds isPrefill) := by
  refine makeScheduleResult_grouped ?_ (fun ids hids id hid hreal => ?_) isPrefill
  · rw [← h.runs.length_eq, List.length_range]
  · obtain ⟨seq, hseq, -⟩ := exists_of_unfinished
      (h.known (fun d hd => List.mem_range.1 hd) ids hids id hid hreal).2
    simp [hseq]

/-- **A `schedule` call whose tries pass `queueTest` keeps every live sequence in one queue**, and its result runs. -/
theorem schedule_passInv {r : ScheduleResult} (hone : OneQueue L [] s)
    (hdum : ∀ id ∈ s.dummySeqIds, s.isReservedId id = true)
    (hfresh : ∀ id ∈ L, s.isReservedId id = false) (hpass : s.prefillPasses queueTest = true)
    (h : s.schedule = (.ok r, s')) :
    PassInv L s' (List.range s'.dp) r.dpSeqIds ∧ Grouped s' r ∧ s'.config = s.config := by
  have hone₀ : OneQueue L [] { s with currentStep := s.currentStep + 1 } := hone.move (fun _ => rfl) fun _ _ => rfl
  unfold schedule at h
  split at h
  case h_1 => cases h
  case h_2 prefill s₁ hpre =>
    obtain ⟨h₁, hc₁⟩ := schedulePrefill_passInv hone₀ hdum hpass hpre
    split at h
    · cases h
      exact ⟨h₁, h₁.grouped true, hc₁⟩
    · cases h
      obtain ⟨h₂, hc₂, -⟩ := decodeRanks_passInv List.nodup_range (fun d hd => List.mem_range.1 hd) h₁.one
        h₁.dummies fun id hid => by
          rw [isReservedId_congr hc₁]
          exact hfresh id hid
      have h₂' : PassInv L s₁.scheduleDecode.2 (List.range s₁.scheduleDecode.2.dp) s₁.scheduleDecode.1 := by
        have hdp : s₁.scheduleDecode.2.dp = s₁.dp := congrArg SchedulerConfig.dp hc₂
        rw [hdp]
        exact h₂
      exact ⟨h₂', h₂'.grouped false, hc₂.trans hc₁⟩

end schedule

end NanoEngine
