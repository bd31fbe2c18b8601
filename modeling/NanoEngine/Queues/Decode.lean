import NanoEngine.Queues.Main

/-!
# NanoEngine.Queues.Decode — no sequence is stranded on a decode engine

A decode engine admits from `waiting_migration` and decodes what runs; nothing reads `waiting`.

* `Placed s id`: `id` is in a queue that a decode engine reads.
* `DecodeQueues L pending s`: `waiting` is empty, and every unfinished id of `L` is placed or in the local list
  `pending`.
* `noVictim`, `growsInPlace`: the tests along a `schedule` call that rule out every preemption.
-/

namespace NanoEngine

open Scheduler PrefillState Transition

/-- All tokens are counted, and the prefill target is among them. -/
def Sequence.Counted (seq : Sequence) : Prop :=
  seq.numTokens = seq.tokenIds.length ∧ promptTarget seq ≤ seq.numTokens

theorem Sequence.KeepsProgress.counted {a b : Sequence} (h : a.KeepsProgress b) (ha : a.Counted) : b.Counted := by
  unfold Sequence.Counted promptTarget at *
  rw [h.numTokens, h.tokenIds, h.numPromptTokens, h.numCheckpointedTokens]
  exact ha

theorem Sequence.Appends.counted {applied : List ℤ} {a b : Sequence} (h : Sequence.Appends applied a b)
    (ha : a.Counted) : b.Counted := by
  unfold Sequence.Counted promptTarget at *
  rw [h.numTokens, h.tokenIds, h.numPromptTokens, h.numCheckpointedTokens]
  by_cases hnil : applied = []
  · subst hnil
    simpa using ha
  · rw [if_neg hnil]
    refine ⟨rfl, ?_⟩
    rw [List.length_append]
    omega

namespace Scheduler

def Placed (s : Scheduler) (id : ℕ) : Prop := id ∈ s.waitingMigration ∨ ∃ d < s.dp, id ∈ s.running d

end Scheduler

structure DecodeQueues (L : Finset ℕ) (pending : List ℕ) (s : Scheduler) : Prop where
  mode : s.config.mode = .decode
  waiting : s.waiting = []
  prefilling : ∀ d, s.prefilling d = []
  placed : ∀ id ∈ L, s.unfinished id = true → id ∈ pending ∨ s.Placed id
  counted : ∀ id seq, s.seqTable id = some seq → seq.Counted
  dummies : ∀ id ∈ s.dummySeqIds, s.isReservedId id = true
  fresh : ∀ id ∈ L, s.isReservedId id = false

namespace DecodeQueues

variable {L : Finset ℕ} {pending pending' : List ℕ} {s s' : Scheduler}

/-- The queues stay, entries change without a sequence of `L` being revived. -/
theorem congr (h : DecodeQueues L pending s) (hs : SameQueues s s')
    (hu : ∀ id ∈ L, s'.unfinished id = true → s.unfinished id = true)
    (hc : ∀ id seq, s'.seqTable id = some seq → seq.Counted) : DecodeQueues L pending s' where
  mode := by rw [hs.config]; exact h.mode
  waiting := by rw [hs.waiting]; exact h.waiting
  prefilling := by rw [hs.prefilling]; exact h.prefilling
  placed := fun id hid hunf => by
    unfold Placed Scheduler.dp
    rw [hs.waitingMigration, hs.running, hs.config]
    exact h.placed id hid (hu id hid hunf)
  counted := hc
  dummies := fun id hid => by
    rw [isReservedId_congr hs.config]
    exact h.dummies id (hs.dummySeqIds ▸ hid)
  fresh := fun id hid => by
    rw [isReservedId_congr hs.config]
    exact h.fresh id hid

theorem counted_frame {R : Sequence → Sequence → Prop} {seqId : ℕ} (h : DecodeQueues L pending s)
    (hR : ∀ a b, R a b → a.Counted → b.Counted) (hf : Frame R seqId s s') (id : ℕ) (seq : Sequence)
    (hseq : s'.seqTable id = some seq) : seq.Counted := by
  by_cases hid : id = seqId
  · subst hid
    cases ha : s.seqTable id with
    | none => rw [hf.missing ha] at hseq; cases hseq
    | some a =>
      obtain ⟨b, hb, hab⟩ := hf.entry a ha
      rw [hb] at hseq
      cases hseq
      exact hR a _ hab (h.counted id a ha)
  · exact h.counted id seq (hf.others id hid ▸ hseq)

theorem swapFrame (h : DecodeQueues L pending s) (hf : SwapFrame s s') : DecodeQueues L pending s' := by
  refine h.congr hf.toSameQueues (fun id _ hunf => ?_) fun id seq hseq => ?_
  · rwa [unfinished_congr (fun _ _ hab => hab.status) hf.table id] at hunf
  · cases ha : s.seqTable id with
    | none => rw [hf.table.missing id ha] at hseq; cases hseq
    | some a =>
      obtain ⟨b, hb, hab⟩ := hf.table.entry id a ha
      rw [hb] at hseq
      cases hseq
      exact hab.counted (h.counted id a ha)

/-- A pending id that is placed, finished, unknown or not of `L` need not be pending. -/
theorem settle (seqId : ℕ) (h : DecodeQueues L (seqId :: pending) s)
    (hset : seqId ∈ L → s.unfinished seqId = true → s.Placed seqId) : DecodeQueues L pending s :=
  { h with
    placed := fun id hid hunf => by
      rcases h.placed id hid hunf with hmem | hplaced
      · rcases List.mem_cons.1 hmem with rfl | hmem
        · exact .inr (hset hid hunf)
        · exact .inl hmem
      · exact .inr hplaced }

/-- A sequence joins the running queue of a rank. -/
theorem pushRunning {d seqId : ℕ} (h : DecodeQueues L (seqId :: pending) s) (hd : d < s.dp) :
    DecodeQueues L pending (s.pushRunning d seqId) := by
  refine DecodeQueues.settle seqId { h with placed := fun id hid hunf => ?_ } fun _ _ => ?_
  · rcases h.placed id hid hunf with hmem | hmig | ⟨d', hd', hrun⟩
    · exact .inl hmem
    · exact .inr (.inl hmig)
    · exact .inr (.inr ⟨d', hd', mem_pushRunning.2 (.inl hrun)⟩)
  · exact .inr ⟨d, hd, mem_pushRunning.2 (.inr ⟨rfl, rfl⟩)⟩

/-! ## The admission loop -/

/-- The head of `waiting_migration` is taken out, whatever was written into its entry. -/
theorem popQueue {R : Sequence → Sequence → Prop} {st : PrefillState} {seqId : ℕ} (h : DecodeQueues L [] st.sched)
    (hhead : st.queue.head? = some seqId) (hR : ∀ a b, R a b → a.Counted → b.Counted)
    (hf : Frame R seqId st.sched s') : DecodeQueues L [seqId] (st.withSched s').popQueue.sched := by
  have hmode : s'.config.mode = .decode := by rw [hf.config]; exact h.mode
  unfold queue at hhead
  rw [if_pos h.mode] at hhead
  obtain ⟨tl, htl⟩ := List.head?_eq_some_iff.1 hhead
  have hcounted := h.counted_frame hR hf
  unfold PrefillState.popQueue withSched
  dsimp only
  rw [if_pos hmode]
  refine ⟨hmode, hf.waiting.trans h.waiting, fun d => ?_, fun id hid hunf => ?_, hcounted, fun id hid => ?_,
    fun id hid => ?_⟩
  · rw [← h.prefilling d, ← hf.prefilling]
  · by_cases hne : id = seqId
    · exact .inl (List.mem_singleton.2 hne)
    · have hunf' : st.sched.unfinished id = true := by
        unfold Scheduler.unfinished at hunf ⊢
        rwa [hf.others id hne] at hunf
      rcases h.placed id hid hunf' with hmem | hmig | ⟨d, hd, hrun⟩
      · cases hmem
      · refine .inr (.inl ?_)
        dsimp only
        rw [hf.waitingMigration, htl, List.tail_cons]
        rw [htl] at hmig
        exact (List.mem_cons.1 hmig).resolve_left hne
      · refine .inr (.inr ⟨d, ?_, ?_⟩)
        · unfold Scheduler.dp at *
          dsimp only
          rwa [hf.config]
        · dsimp only
          rwa [hf.running]
  · exact (isReservedId_congr hf.config id).trans (h.dummies id (hf.dummySeqIds ▸ hid))
  · exact (isReservedId_congr hf.config id).trans (h.fresh id hid)

theorem placeRestored {R : Sequence → Sequence → Prop} {st : PrefillState} {d seqId : ℕ}
    (h : DecodeQueues L [] st.sched)
    (hhead : st.queue.head? = some seqId) (hd : d < st.sched.dp) (hR : ∀ a b, R a b → a.Counted → b.Counted)
    (hf : Frame R seqId st.sched s') : DecodeQueues L [] ((st.withSched s').placeRestored d seqId).sched := by
  have hpop := h.popQueue hhead hR hf
  have hd' : d < (st.withSched s').popQueue.sched.dp := by
    unfold Scheduler.dp at *
    rw [config_popQueue]
    exact hf.config ▸ hd
  exact (hpop.pushRunning hd').swapFrame (SwapFrame.cache _ _)

theorem placeAdmitted {R : Sequence → Sequence → Prop} {st : PrefillState} {d seqId : ℕ}
    (h : DecodeQueues L [] st.sched)
    (hhead : st.queue.head? = some seqId) (hd : d < st.sched.dp) (hR : ∀ a b, R a b → a.Counted → b.Counted)
    (hf : Frame R seqId st.sched s') (newTokens : ℤ) :
    DecodeQueues L [] ((st.withSched s').placeAdmitted d seqId newTokens).sched := by
  have hpop := h.popQueue hhead hR hf
  have hd' : d < (st.withSched s').popQueue.sched.dp := by
    unfold Scheduler.dp at *
    rw [config_popQueue]
    exact hf.config ▸ hd
  have hrun := hpop.pushRunning hd'
  have hmark : Frame (fun a b => b.status = a.status ∧ (a.Counted → b.Counted)) seqId
      ((st.withSched s').popQueue.sched.pushRunning d seqId)
      (((st.withSched s').popQueue.sched.pushRunning d seqId).markScheduled seqId) :=
    Frame.of_updateSeq _ _ fun _ => ⟨rfl, fun h => h⟩
  refine DecodeQueues.swapFrame (hrun.congr hmark.toSameQueues (fun id _ hunf => ?_) (hrun.counted_frame
    (fun _ _ hab => hab.2) hmark)) (SwapFrame.cache _ _)
  rwa [unfinished_congr (fun _ _ hab => hab.1) (hmark.table fun _ => ⟨rfl, fun h => h⟩) id] at hunf

end DecodeQueues

section tests

variable [Xxh3]

/-- The try preempts nobody. -/
def noVictim : TryTest := fun st seqId dpIdx _ =>
  (st.sched.admissionVictim seqId dpIdx (st.numSeqs dpIdx) (st.numTokens dpIdx)).isNone

/-- The decode pass skips the sequence or finds room for its next step. -/
def growsInPlace : DecodeTest := fun st seqId _ =>
  decide (st.perGroup (st.sched.groupOfId seqId) ≥ max st.sched.config.maxNumSeqs 1) ||
    match st.sched.cacheEnsureBlocksForSeq seqId false with
    | (.ok (), _) => true
    | (.error _, _) => false

/-- A try without a victim that places nothing has at most asked the prefix cache. -/
theorem noVictim_frame {st : PrefillState} {seqId d : ℕ} {ranks : List ℕ} {s' : Scheduler}
    (hW : noVictim st seqId d ranks = true) (h : st.tryOn seqId d = (.ok none, s')) :
    Frame Sequence.RecordsCached seqId st.sched s' := by
  have hcases := tryAllocatePrefill_cases h
  generalize hr : (none : Option ℤ) = r at hcases
  cases hcases with
  | refused hprep =>
    have hf := prepareAdmission_frame st.sched seqId d (st.numSeqs d) (st.numTokens d)
    rwa [hprep] at hf
  | preempted hprep hres hchosen =>
    have hvictim := admissionVictim_eq hprep hres hchosen
    unfold noVictim at hW
    rw [hvictim] at hW
    cases hW
  | admitted => cases hr

theorem noVictim_headSafe (st : PrefillState) (seqId d : ℕ) (ranks : List ℕ) (hhead : st.queue.head? = some seqId)
    (hW : noVictim st seqId d ranks = true) : headSafe st seqId d ranks = true := by
  unfold headSafe
  split
  case h_1 s' htry =>
    rw [queue_withSched_of_same (noVictim_frame hW htry).toSameQueues, hhead]
    simp
  case h_2 => rfl

end tests

namespace DecodeQueues

variable {L : Finset ℕ} [Xxh3]

theorem admitStep {st st' : PrefillState} (h : DecodeQueues L [] st.sched) (hstep : AdmitStep noVictim st st') :
    DecodeQueues L [] st'.sched := by
  cases hstep with
  | @routed seqId => exact h.swapFrame (routeCandidates_frame st.sched seqId 0).swapFrame
  | tried hmem hrank hhost htest htry =>
    have hf := noVictim_frame htest htry
    refine h.congr hf.toSameQueues (fun id _ hunf => ?_) (h.counted_frame ?_ hf)
    · have hsame : ∀ a b, Sequence.RecordsCached a b → b.status = a.status := by
        rintro a b ⟨cached, offset, rfl⟩
        rfl
      exact (unfinished_congr hsame (hf.table Sequence.RecordsCached.refl) id).symm.trans hunf
    · rintro a b ⟨cached, offset, rfl⟩ ha
      exact ha
  | restored hhead hrank hhost hres =>
    refine h.placeRestored hhead hrank (fun a b hab ha => ?_) (cacheTryRestoreHostBlocks_true hres)
    unfold Sequence.Counted promptTarget at *
    rwa [hab.numTokens, hab.tokenIds, hab.numPromptTokens, hab.numCheckpointedTokens]
  | @admitted seqId d ranks newTokens s' hhead hrank hhost htest htry =>
    have hcases := tryAllocatePrefill_cases htry
    generalize hr : (some newTokens : Option ℤ) = r at hcases
    cases hcases with
    | refused => cases hr
    | preempted => cases hr
    | @admitted a s₁ s₂ _ hprep hres hfin =>
      refine h.placeAdmitted hhead hrank ?_ (TryCase.admitted_frame hprep hres hfin) newTokens
      rintro x y ⟨z, ⟨cached, offset, rfl⟩, hz, -⟩ hx
      have hn := (hz.decode h.mode).1
      unfold Sequence.Counted promptTarget at *
      rw [hn, hz.tokenIds, hz.numPromptTokens, hz.numCheckpointedTokens]
      exact hx

/-! ## The decode pass -/

/-- The loop over the queue of one rank; `rest` is what is still to be looked at. -/
theorem decodeSeq {d seqId : ℕ} {rest : List ℕ} {st : DecodeState}
    (h : DecodeQueues L (st.skipped ++ seqId :: rest) st.sched) (hD : growsInPlace st seqId d = true) :
    DecodeQueues L ((Scheduler.decodeSeq d st seqId).skipped ++ rest) (Scheduler.decodeSeq d st seqId).sched := by
  have hlist : st.skipped ++ seqId :: rest = st.skipped ++ [seqId] ++ rest := by simp
  rw [hlist] at h
  unfold growsInPlace at hD
  unfold Scheduler.decodeSeq
  dsimp only
  split
  · exact h
  case isFalse hroom =>
    rw [decide_eq_false hroom, Bool.false_or] at hD
    have hf := (cacheEnsureBlocksForSeq_frame st.sched seqId false).cacheFrame.swapFrame
    split
    case h_1 e s₁ heq =>
      rw [heq] at hD
      cases hD
    case h_2 s₁ heq =>
      rw [heq] at hf
      have h₁ : DecodeQueues L (st.skipped ++ [seqId] ++ rest) s₁ := h.swapFrame hf
      have hmark : Frame (fun a b => b.status = a.status ∧ (a.Counted → b.Counted)) seqId s₁
        (s₁.markScheduled seqId) :=
        Frame.of_updateSeq _ _ fun _ => ⟨rfl, fun h => h⟩
      refine h₁.congr hmark.toSameQueues (fun id _ hunf => ?_) (h₁.counted_frame (fun _ _ hab => hab.2) hmark)
      exact (unfinished_congr (fun _ _ hab => hab.1) (hmark.table fun _ => ⟨rfl, fun h => h⟩) id).symm.trans hunf

theorem decodeSeqs {d : ℕ} (ids : List ℕ) {st : DecodeState} (h : DecodeQueues L (st.skipped ++ ids) st.sched)
    (hD : decodeSeqsPass growsInPlace d ids st = true) :
    DecodeQueues L (ids.foldl (Scheduler.decodeSeq d) st).skipped (ids.foldl (Scheduler.decodeSeq d) st).sched := by
  induction ids generalizing st with
  | nil => simpa using h
  | cons seqId ids ih =>
    unfold decodeSeqsPass at hD
    rw [Bool.and_eq_true] at hD
    exact ih (h.decodeSeq hD.1) hD.2

omit [Xxh3] in
theorem entersDummies {s s' : Scheduler} (h : DecodeQueues L [] s) (he : EntersDummies s s') :
    DecodeQueues L [] s' := by
  refine ⟨by rw [he.config]; exact h.mode, he.waiting.trans h.waiting, fun d' => ?_, fun id hid hunf => ?_,
    fun id seq hseq => ?_, fun id hid => ?_, fun id hid => ?_⟩
  · rw [he.prefilling]
    exact h.prefilling d'
  · unfold Scheduler.unfinished at hunf
    rw [he.others id (h.fresh id hid)] at hunf
    unfold Placed Scheduler.dp
    rw [he.config, he.waitingMigration, he.running]
    exact h.placed id hid hunf
  · rcases he.entry id seq hseq with hold | hdummy
    · exact h.counted id seq hold
    · simp [Sequence.Counted, promptTarget, hdummy.tokenIds, hdummy.numTokens, hdummy.numPromptTokens,
        hdummy.numCheckpointedTokens]
  · rw [isReservedId_congr he.config]
    exact (he.reserved id hid).elim (h.dummies id) fun hres => hres
  · rw [isReservedId_congr he.config]
    exact h.fresh id hid

theorem decodeRank {s : Scheduler} {d : ℕ} (h : DecodeQueues L [] s) (hd : d < s.dp)
    (hD : decodeSeqsPass growsInPlace d (s.running d) (s.decodeStart d) = true) :
    DecodeQueues L [] (s.decodeRank d).2 ∧ (s.decodeRank d).2.config = s.config := by
  -- at the start the running sequences of the rank are those still to visit
  have hstart : DecodeQueues L ((s.decodeStart d).skipped ++ s.running d) (s.decodeStart d).sched := by
    refine { h with placed := fun id hid hunf => ?_ }
    rcases h.placed id hid hunf with hmem | hmig | ⟨d', hd', hrun⟩
    · cases hmem
    · exact .inr (.inl hmig)
    · by_cases hdd : d' = d
      · subst hdd
        exact .inl hrun
      · exact .inr (.inr ⟨d', hd', by simpa [decodeStart, Function.update_of_ne hdd] using hrun⟩)
  have hfin := hstart.decodeSeqs _ hD
  obtain ⟨hconfig, -, hrunning⟩ := decodeSeqs_frame (d := d) (s.running d) (s.decodeStart d)
  have hempty := hrunning d (.inr (Function.update_self _ _ _))
  rw [show (s.decodeStart d).sched.running d = [] from Function.update_self _ _ _] at hempty
  unfold Scheduler.decodeRank
  dsimp only
  generalize (s.running d).foldl (Scheduler.decodeSeq d) (s.decodeStart d) = st at hfin hconfig hempty
  replace hconfig : st.sched.config = s.config := hconfig
  have hdp : st.sched.dp = s.dp := congrArg SchedulerConfig.dp hconfig
  -- what was skipped is the new running list
  have h₁ : DecodeQueues L [] { st.sched with running := Function.update st.sched.running d st.skipped } := by
    refine { hfin with placed := fun id hid hunf => ?_ }
    rcases hfin.placed id hid hunf with hmem | hmig | ⟨d', hd', hrun⟩
    · exact .inr (.inr ⟨d, hdp ▸ hd, by simpa using hmem⟩)
    · exact .inr (.inl hmig)
    · have hdd : d' ≠ d := by
        rintro rfl
        rw [hempty] at hrun
        cases hrun
      exact .inr (.inr ⟨d', hd', by simpa [Function.update_of_ne hdd] using hrun⟩)
  have hdummies := (decodeDummies_enters (d := d) (s := { st.sched with
    running := Function.update st.sched.running d st.skipped }) st.groupLens (List.range st.sched.group) (hdp ▸ hd)
    fun g hg => List.mem_range.1 hg).1
  exact ⟨h₁.entersDummies hdummies, hdummies.config.trans hconfig⟩

theorem decodeRanks {s : Scheduler} (ranks : List ℕ) (h : DecodeQueues L [] s) (hranks : ∀ d ∈ ranks, d < s.dp)
    (hD : decodeRanksPass growsInPlace ranks s = true) :
    DecodeQueues L [] (Scheduler.decodeRanks ranks s).2 ∧ (Scheduler.decodeRanks ranks s).2.config = s.config := by
  induction ranks generalizing s with
  | nil => exact ⟨h, rfl⟩
  | cons d ranks ih =>
    unfold decodeRanksPass at hD
    rw [Bool.and_eq_true] at hD
    obtain ⟨h₁, hc₁⟩ := h.decodeRank (hranks d List.mem_cons_self) hD.1
    have hranks₁ : ∀ d' ∈ ranks, d' < (s.decodeRank d).2.dp := by
      intro d' hd'
      have := hranks d' (List.mem_cons_of_mem _ hd')
      unfold Scheduler.dp at *
      rwa [hc₁]
    obtain ⟨h₂, hc₂⟩ := ih h₁ hranks₁ hD.2
    exact ⟨h₂, hc₂.trans hc₁⟩

/-! ## A whole `schedule` call -/

omit [Xxh3] in
/-- There is nothing to continue. -/
theorem continueAll {s : Scheduler} (h : DecodeQueues L [] s) :
    DecodeQueues L [] (PrefillState.init s).continueAll.sched ∧
      (PrefillState.init s).continueAll.sched.config = s.config := by
  have hfold : ∀ (ranks : List ℕ) (st : PrefillState), DecodeQueues L [] st.sched →
      DecodeQueues L [] (ranks.foldl PrefillState.continueRank st).sched := by
    intro ranks
    induction ranks with
    | nil => intro st hst; exact hst
    | cons d ranks ih =>
      intro st hst
      refine ih _ ?_
      unfold PrefillState.continueRank
      rw [hst.prefilling d]
      refine { hst with prefilling := fun d' => ?_ }
      unfold takePrefilling withSched
      by_cases hdd : d' = d
      · subst hdd
        exact Function.update_self _ _ _
      · simpa [Function.update_of_ne hdd] using hst.prefilling d'
  exact ⟨hfold _ _ h, config_continueAll _⟩

theorem schedulePrefill {s s' : Scheduler} {prefill : List (List ℕ)} (h : DecodeQueues L [] s)
    (hpass : admitPasses noVictim (PrefillState.init s).continueAll.admissionFuel
      (PrefillState.init s).continueAll = true)
    (hs : s.schedulePrefill = (.ok prefill, s')) : DecodeQueues L [] s' ∧ s'.config = s.config := by
  unfold Scheduler.schedulePrefill at hs
  dsimp only at hs
  split at hs
  case h_1 => cases hs
  case h_2 st hloop =>
    cases hs
    have hsteps := admitLoop_steps noVictim_headSafe hpass hloop
    clear hloop
    induction hsteps with
    | refl => exact h.continueAll
    | tail _ hstep ih => exact ⟨ih.1.admitStep hstep, hstep.config.trans ih.2⟩

theorem schedule {s s' : Scheduler} {r : ScheduleResult} (h : DecodeQueues L [] s)
    (hpass : s.schedulePasses noVictim growsInPlace = true) (hs : s.schedule = (.ok r, s')) :
    DecodeQueues L [] s' ∧ s'.config = s.config ∧ r.filteredDpGroupSeqIds.length = s'.dp * s'.group := by
  have h₀ : DecodeQueues L [] { s with currentStep := s.currentStep + 1 } := { h with }
  have hlen : ∀ (s : Scheduler) (ids : List (List ℕ)) (isPrefill : Bool),
      (s.makeScheduleResult ids isPrefill).filteredDpGroupSeqIds.length = s.dp * s.group := by
    intro s ids isPrefill
    simp [makeScheduleResult, List.length_flatMap]
  unfold schedulePasses at hpass
  rw [Bool.and_eq_true] at hpass
  obtain ⟨hprefill, hdecode⟩ := hpass
  unfold Scheduler.schedule at hs
  split at hs
  case h_1 => cases hs
  case h_2 prefill s₁ hpre =>
    rw [hpre] at hdecode
    obtain ⟨h₁, hc₁⟩ := h₀.schedulePrefill hprefill hpre
    replace hc₁ : s₁.config = s.config := hc₁
    split at hs
    case isTrue =>
      cases hs
      exact ⟨h₁, hc₁, hlen _ _ _⟩
    case isFalse hnone =>
      cases hs
      have hD : decodeRanksPass growsInPlace (List.range s₁.dp) s₁ = true := by simpa [hnone] using hdecode
      obtain ⟨h₂, hc₂⟩ := h₁.decodeRanks _ (fun d hd => List.mem_range.1 hd) hD
      exact ⟨h₂, hc₂.trans hc₁, hlen _ _ _⟩

/-! ## Postprocessing -/

theorem postprocessPlace {s : Scheduler} {d seqId : ℕ} {pending : List ℕ} (h : DecodeQueues L (seqId :: pending) s)
    (hd : d < s.dp) (seq : Sequence) (hitTerminal : Bool) :
    DecodeQueues L pending (s.postprocessPlace d seqId seq hitTerminal) := by
  -- the status may change while the sequence is held outside the queues
  have hstatus : ∀ (s : Scheduler) (status : SequenceStatus), DecodeQueues L (seqId :: pending) s →
      DecodeQueues L (seqId :: pending) (s.updateSeq seqId (fun seq => { seq with status := status })) := by
    intro s status h
    have hf : Frame (fun a b => a.Counted → b.Counted) seqId s
        (s.updateSeq seqId (fun seq => { seq with status := status })) := Frame.of_updateSeq _ _ fun _ h => h
    have h' : DecodeQueues L (seqId :: pending) { s with
        seqTable := (s.updateSeq seqId (fun seq => { seq with status := status })).seqTable } := by
      refine { h with placed := fun id hid hunf => ?_, counted := h.counted_frame (fun _ _ hab => hab) hf }
      by_cases hne : id = seqId
      · exact .inl (List.mem_cons.2 (.inl hne))
      · refine h.placed id hid ?_
        unfold Scheduler.unfinished at hunf ⊢
        rwa [show (s.updateSeq seqId (fun seq => { seq with status := status })).seqTable id = s.seqTable id from
          hf.others id hne] at hunf
    exact h'
  unfold Scheduler.postprocessPlace
  split
  · refine DecodeQueues.settle seqId ((hstatus s .finished h).swapFrame (SwapFrame.cache _ _)) fun _ hunf => ?_
    cases hseq : s.seqTable seqId <;>
      simp [Scheduler.unfinished, releaseSeq, setCache, updateSeq, hseq] at hunf
  · rw [if_neg (by rw [h.mode]; decide)]
    have hf := (cacheEnsureBlocksForSeq_frame s seqId false).cacheFrame.swapFrame
    refine (hstatus _ .running (h.swapFrame hf)).pushRunning ?_
    unfold Scheduler.dp at *
    exact hf.config.symm ▸ hd

theorem postprocessSeq {s : Scheduler} {d seqId : ℕ} {pending : List ℕ} (h : DecodeQueues L (seqId :: pending) s)
    (hd : d < s.dp) (tokens : List ℤ) (logprobs : List ℚ) :
    DecodeQueues L pending (s.postprocessSeq d seqId (some tokens) logprobs) := by
  unfold Scheduler.postprocessSeq
  split
  case isTrue hdummy =>
    refine h.settle seqId fun hid _ => ?_
    have := h.dummies seqId hdummy
    rw [h.fresh seqId hid] at this
    cases this
  case isFalse =>
    dsimp only
    split
    case h_1 hnone =>
      refine h.settle seqId fun _ hunf => ?_
      simp [Scheduler.unfinished, hnone] at hunf
    case h_2 seq hseq =>
      have hcounted := h.counted seqId seq hseq
      -- a decode engine has no partial prefill, so this branch of the source is never taken
      rw [if_neg (by have := hcounted.2; omega)]
      have hspec := postprocessAppend_spec s seqId seq tokens logprobs hseq
      refine DecodeQueues.postprocessPlace ?_ (by unfold Scheduler.dp at *; rwa [hspec.config]) _ _
      refine ⟨?_, hspec.waiting.trans h.waiting, fun d => ?_, fun id hid hunf => ?_, fun id seq' hseq' => ?_,
        fun id hid => ?_, fun id hid => ?_⟩
      · rw [hspec.config]
        exact h.mode
      · rw [hspec.prefilling]
        exact h.prefilling d
      · by_cases hne : id = seqId
        · exact .inl (List.mem_cons.2 (.inl hne))
        · unfold Scheduler.unfinished at hunf
          rw [hspec.others id hne] at hunf
          unfold Placed Scheduler.dp
          rw [hspec.config, hspec.waitingMigration, hspec.running]
          exact h.placed id hid hunf
      · by_cases hne : id = seqId
        · subst hne
          rw [hspec.table, Function.update_self] at hseq'
          cases hseq'
          rw [hspec.entry]
          refine (appendTokens_appends s _ tokens logprobs).counted ?_
          split
          · exact hcounted
          · exact hcounted
        · exact h.counted id seq' (hspec.others id hne ▸ hseq')
      · rw [isReservedId_congr hspec.config]
        exact h.dummies id (hspec.dummySeqIds ▸ hid)
      · rw [isReservedId_congr hspec.config]
        exact h.fresh id hid

theorem postprocessGroup {s : Scheduler} {d : ℕ} {pending : List ℕ} (ids : List ℕ) {rows : List (List ℤ)}
    (hrows : rows.length = ids.length) (logprobs : List (List ℚ)) (h : DecodeQueues L (ids ++ pending) s)
    (hd : d < s.dp) :
    DecodeQueues L pending (Scheduler.postprocessGroup d ids rows logprobs s) ∧
      (Scheduler.postprocessGroup d ids rows logprobs s).config = s.config := by
  induction ids generalizing rows logprobs s with
  | nil => exact ⟨h, rfl⟩
  | cons seqId ids ih =>
    obtain ⟨row, rows, rfl⟩ : ∃ row rest, rows = row :: rest := List.exists_cons_of_length_pos (by simp [hrows])
    unfold Scheduler.postprocessGroup
    have hf := postprocessSeq_frame s d seqId (some row) (logprobs.head?.getD [])
    obtain ⟨h₂, hc₂⟩ := ih (by simpa using hrows) logprobs.tail
      (DecodeQueues.postprocessSeq h hd row (logprobs.head?.getD [])) (by unfold Scheduler.dp at *; rwa [hf.config])
    exact ⟨h₂, hc₂.trans hf.config⟩

theorem postprocessGroups {s : Scheduler} (k : ℕ) (groups : List (List ℕ)) {rows : List (List (List ℤ))}
    (hrows : rows.map List.length = groups.map List.length) (logprobs : List (List (List ℚ)))
    (h : DecodeQueues L groups.flatten s) (hk : k + groups.length ≤ s.dp * s.group) :
    DecodeQueues L [] (Scheduler.postprocessGroups k groups rows logprobs s) ∧
      (Scheduler.postprocessGroups k groups rows logprobs s).config = s.config := by
  induction groups generalizing k rows logprobs s with
  | nil => exact ⟨h, rfl⟩
  | cons ids groups ih =>
    obtain ⟨row, rows, rfl⟩ : ∃ row rest, rows = row :: rest :=
      List.exists_cons_of_length_pos (by have := congrArg List.length hrows; simp at this; omega)
    simp only [List.map_cons, List.cons.injEq] at hrows
    rw [List.length_cons] at hk
    have hd : k / s.group < s.dp := by
      have hpos : 0 < s.group := s.config.one_le_group
      rw [Nat.div_lt_iff_lt_mul hpos]
      omega
    unfold Scheduler.postprocessGroups
    dsimp only [List.head?_cons, List.tail_cons]
    obtain ⟨h₁, hc₁⟩ := DecodeQueues.postprocessGroup ids hrows.1 (logprobs.head?.getD []) h hd
    obtain ⟨h₂, hc₂⟩ := ih (k + 1) hrows.2 logprobs.tail h₁
      (by unfold Scheduler.dp Scheduler.group at *; rw [hc₁]; omega)
    exact ⟨h₂, hc₂.trans hc₁⟩

theorem postprocessImpl {s : Scheduler} {groups : List (List ℕ)} (h : DecodeQueues L [] s)
    (hlen : groups.length = s.dp * s.group) {rows : List (List (List ℤ))}
    (hrows : rows.map List.length = groups.map List.length) (logprobs : List (List (List ℚ))) :
    DecodeQueues L [] (s.postprocessImpl groups rows logprobs) ∧
      (s.postprocessImpl groups rows logprobs).config = s.config := by
  refine DecodeQueues.postprocessGroups 0 groups hrows logprobs ?_ (by rw [Nat.zero_add, hlen]; exact Nat.le_refl _)
  refine { h with placed := fun id hid hunf => ?_ }
  by_cases hmem : id ∈ groups.flatten
  · exact .inl hmem
  · rcases h.placed id hid hunf with hnil | hmig | ⟨d, hd, hrun⟩
    · cases hnil
    · exact .inr (.inl hmig)
    · refine .inr (.inr ⟨d, hd, List.mem_filter.2 ⟨hrun, decide_eq_true fun hsched => hmem ?_⟩⟩)
      unfold scheduledIds at hsched
      obtain ⟨g, hg, hid⟩ := List.mem_flatMap.1 hsched
      have hlt := List.mem_range.1 (List.mem_of_mem_filter hg)
      rw [List.getD_eq_getElem?_getD, List.getElem?_eq_getElem hlt, Option.getD_some] at hid
      exact List.mem_flatten.2 ⟨_, List.getElem_mem hlt, hid⟩

end DecodeQueues

/-! ## Runs -/

structure DecodeCallInv (config : SchedulerConfig) (x : OpState) : Prop where
  config : x.sched.config = config
  queues : DecodeQueues x.live [] x.sched
  groups : ∀ r, x.last = some r → r.filteredDpGroupSeqIds.length = x.sched.dp * x.sched.group

namespace DecodeCallInv

variable {config : SchedulerConfig} {x x' : OpState}

theorem init (hmode : config.mode = .decode) : DecodeCallInv config (OpState.init config) where
  config := rfl
  queues := ⟨hmode, rfl, fun _ => rfl, fun _ hid => absurd hid (Finset.notMem_empty _), fun _ _ h => (by cases h),
    fun _ hid => absurd hid (Finset.notMem_empty _), fun _ hid => absurd hid (Finset.notMem_empty _)⟩
  groups := fun _ h => by cases h

theorem swapFrame {s : Scheduler} (h : DecodeCallInv config x) (hs : SwapFrame x.sched s) :
    DecodeCallInv config { x with sched := s } where
  config := hs.config.trans h.config
  queues := h.queues.swapFrame hs
  groups := fun r hr => by
    have := h.groups r hr
    unfold Scheduler.dp Scheduler.group at *
    dsimp only
    rwa [hs.config]

theorem add {seq : Sequence} (h : DecodeCallInv config x) (hseq : seq.Counted) (hx : x.add seq = some x') :
    DecodeCallInv config x' := by
  unfold OpState.add at hx
  split at hx
  case isTrue => cases hx
  case isFalse hfree =>
    simp only [Bool.or_eq_true, not_or, Bool.not_eq_true] at hfree
    cases hx
    unfold addSequence
    dsimp only
    rw [if_pos h.queues.mode]
    refine ⟨h.config, ⟨h.queues.mode, h.queues.waiting, h.queues.prefilling, fun id hid hunf => ?_,
      fun id seq' hseq' => ?_,
      h.queues.dummies, fun id hid => ?_⟩, h.groups⟩
    · by_cases hne : id = seq.seqId
      · exact .inr (.inl (List.mem_append_right _ (List.mem_singleton.2 hne)))
      · unfold Scheduler.unfinished at hunf
        dsimp only at hunf
        rw [Function.update_of_ne hne] at hunf
        rcases h.queues.placed id ((Finset.mem_insert.1 hid).resolve_left hne) hunf with hnil | hmig | hrun
        · cases hnil
        · exact .inr (.inl (List.mem_append_left _ hmig))
        · exact .inr (.inr hrun)
    · dsimp only at hseq'
      by_cases hne : id = seq.seqId
      · subst hne
        rw [Function.update_self] at hseq'
        cases hseq'
        exact hseq
      · rw [Function.update_of_ne hne] at hseq'
        exact h.queues.counted id seq' hseq'
    · rcases Finset.mem_insert.1 hid with rfl | hid
      · exact hfree.2
      · exact h.queues.fresh id hid

theorem abort (h : DecodeCallInv config x) (seqId : ℕ) :
    DecodeCallInv config { x with
      sched := (x.sched.abortImpl seqId).2
      live := if (x.sched.abortImpl seqId).1 then x.live.erase seqId else x.live } := by
  cases hfound : (x.sched.abortImpl seqId).1 with
  | false =>
    rw [abortImpl_not_found hfound]
    exact h
  | true =>
    have hab := abortImpl_found hfound
    have hdp : (x.sched.abortImpl seqId).2.dp = x.sched.dp := congrArg SchedulerConfig.dp hab.config
    have hgroup : (x.sched.abortImpl seqId).2.group = x.sched.group := congrArg SchedulerConfig.group hab.config
    -- the id leaves the live ones and every queue together
    refine ⟨hab.config.trans h.config, ⟨?_, ?_, fun d => ?_, fun id hid hunf => ?_,
      fun id seq hseq => ?_, fun id hid => ?_,
      fun id hid => ?_⟩, fun r hr => ?_⟩
    · rw [hab.config]
      exact h.queues.mode
    · rw [hab.waiting, h.queues.waiting]
      rfl
    · rw [hab.prefilling, h.queues.prefilling d]
      rfl
    · obtain ⟨hne, hid⟩ := Finset.mem_erase.1 hid
      unfold Scheduler.unfinished at hunf
      rw [hab.seqTable] at hunf
      unfold Placed
      rw [hab.waitingMigration, hdp]
      rcases h.queues.placed id hid hunf with hnil | hmig | ⟨d, hd, hrun⟩
      · cases hnil
      · exact .inr (.inl (List.mem_filter.2 ⟨hmig, decide_eq_true hne⟩))
      · refine .inr (.inr ⟨d, hd, ?_⟩)
        rw [hab.running]
        exact List.mem_filter.2 ⟨hrun, decide_eq_true hne⟩
    · rw [hab.seqTable] at hseq
      exact h.queues.counted id seq hseq
    · rw [isReservedId_congr hab.config]
      exact h.queues.dummies id (hab.dummySeqIds ▸ hid)
    · rw [isReservedId_congr hab.config]
      exact h.queues.fresh id (Finset.mem_erase.1 hid).2
    · dsimp only
      rw [hdp, hgroup]
      exact h.groups r hr

theorem freeMigrated {seqId : ℕ} (h : DecodeCallInv config x) (hmig : (x.sched.toBeMigrated seqId).isSome = true) :
    DecodeCallInv config { x with sched := x.sched.freeToBeMigratedIdsImpl [seqId] } := by
  have hfreed := freeToBeMigrated_spec hmig
  have hdp : (x.sched.freeToBeMigratedIdsImpl [seqId]).dp = x.sched.dp := congrArg SchedulerConfig.dp hfreed.config
  have hgroup : (x.sched.freeToBeMigratedIdsImpl [seqId]).group = x.sched.group :=
    congrArg SchedulerConfig.group hfreed.config
  refine ⟨hfreed.config.trans h.config, ⟨?_, ?_, fun d => ?_, fun id hid hunf => ?_,
    fun id seq hseq => ?_, fun id hid => ?_,
    fun id hid => ?_⟩, fun r hr => ?_⟩
  · rw [hfreed.config]
    exact h.queues.mode
  · rw [hfreed.waiting, h.queues.waiting]
  · rw [hfreed.prefilling, h.queues.prefilling d]
  -- the freed sequence is finished and needs no place; every other one keeps its own
  · by_cases hne : id = seqId
    · subst hne
      unfold Scheduler.unfinished at hunf
      dsimp only at hunf
      rw [hfreed.seqTable, Function.update_self] at hunf
      cases hseq : x.sched.seqTable id <;> simp [hseq] at hunf
    · unfold Scheduler.unfinished at hunf
      dsimp only at hunf
      rw [hfreed.seqTable, Function.update_of_ne hne] at hunf
      unfold Placed
      rw [hfreed.waitingMigration, hfreed.running, hdp]
      exact h.queues.placed id hid hunf
  · rw [hfreed.seqTable] at hseq
    by_cases hne : id = seqId
    · subst hne
      rw [Function.update_self] at hseq
      obtain ⟨old, hold, rfl⟩ := Option.map_eq_some_iff.1 hseq
      exact h.queues.counted id old hold
    · rw [Function.update_of_ne hne] at hseq
      exact h.queues.counted id seq hseq
  · rw [isReservedId_congr hfreed.config]
    exact h.queues.dummies id (hfreed.dummySeqIds ▸ hid)
  · rw [isReservedId_congr hfreed.config]
    exact h.queues.fresh id hid
  · dsimp only
    rw [hdp, hgroup]
    exact h.groups r hr

end DecodeCallInv

section runs

variable [Xxh3]

/-- No try of a `schedule` call preempts, and every sequence of its decode pass grows in place. -/
def decodeGuard : OpState → SchedulerOp → Bool
  | x, .schedule => x.sched.schedulePasses noVictim growsInPlace
  | _, _ => true

theorem decodeCallInv_invariant {config : SchedulerConfig} (hmode : config.mode = .decode) :
    Invariant (callSystem config) decodeGuard (DecodeCallInv config) where
  initial := by
    rintro x rfl
    exact DecodeCallInv.init hmode
  next := by
    intro x op x' h hguard hnext
    cases OpState.step_of_next hnext with
    | added request hadd => exact h.add (by simp [Sequence.Counted, promptTarget, requestToSequence, Sequence.new]) hadd
    | handedOver request hover hadd =>
      refine h.add ?_ hadd
      simp only [WireRequestMigrate.handedOver, Bool.and_eq_true, decide_eq_true_eq] at hover
      obtain ⟨⟨⟨-, hlen⟩, hprompt⟩, hcheck⟩ := hover
      exact ⟨hlen, max_le hprompt hcheck⟩
    | scheduled hs =>
      obtain ⟨hq, hconfig, hlen⟩ := h.queues.schedule hguard hs
      refine ⟨hconfig.trans h.config, hq, fun r' hr' => ?_⟩
      cases hr'
      exact hlen
    | swappedOut => exact h.swapFrame (cacheCompleteHostSwapOuts_frame x.sched _)
    | swappedIn => exact h.swapFrame (cacheCompleteHostSwapIns_frame x.sched _)
    | postprocessed rows logprobs hr hrows =>
      obtain ⟨hq, hconfig⟩ := h.queues.postprocessImpl (h.groups _ hr) (of_decide_eq_true hrows) logprobs
      exact ⟨hconfig.trans h.config, hq, fun r' hr' => by cases hr'⟩
    | @aborted seqId => exact h.abort seqId
    | freed hmig => exact h.freeMigrated hmig
    | toggled => exact h.swapFrame (SwapFrame.cache _ _)

/-- **No sequence is stranded on a decode engine** that never preempts: `waiting` is empty, every live sequence is in
`waiting_migration` or runs. -/
theorem decode_placed (config : SchedulerConfig) (hmode : config.mode = .decode) (x : OpState)
    (hx : Reachable (callSystem config) decodeGuard x) :
    x.sched.waiting = [] ∧ ∀ seqId, x.isLive seqId = true →
      seqId ∈ x.sched.waitingMigration ∨ ∃ d < x.sched.dp, seqId ∈ x.sched.running d := by
  have h := ((decodeCallInv_invariant hmode).holds hx).queues
  refine ⟨h.waiting, fun seqId hlive => ?_⟩
  unfold OpState.isLive at hlive
  rw [Bool.and_eq_true, decide_eq_true_eq] at hlive
  rcases h.placed seqId hlive.1 hlive.2 with hnil | hplaced
  · cases hnil
  · exact hplaced

end runs

/-! ## Evaluated runs -/

section evaluated

attribute [local instance] codeHash

def crowdedDecodeConfig : SchedulerConfig := { crowdedConfig with mode := .decode }

/-- A sequence of seven tokens, handed over by a prefill engine. -/
def handOver (seqId : ℕ) : SchedulerOp :=
  .addMigrated (sequenceToMigrationRequest { Sequence.new seqId [1, 2, 3, 4, 5, 6, 10 + seqId] {} with
    status := .toBeMigrated })

/-- A migrated sequence is admitted, then decoded. -/
theorem decode_placed_running : ∃ x, Reachable (callSystem crowdedDecodeConfig) decodeGuard x ∧
    x.isLive 0 = true ∧
    x.sched.running 0 = [0] ∧ x.sched.waiting = [] ∧
    (0 ∈ x.sched.waitingMigration ∨ ∃ d < x.sched.dp, 0 ∈ x.sched.running d) := by
  obtain ⟨x, hx, hP⟩ := Reachable.exists_of_run (T := callSystem crowdedDecodeConfig) (G := decodeGuard)
    (P := fun x => x.isLive 0 && decide (x.sched.running 0 = [0])) (s := OpState.init crowdedDecodeConfig)
    [handOver 0, .schedule, .schedule, .postprocess [[[5]]] []] rfl (by decide +kernel)
  simp only [Bool.and_eq_true, decide_eq_true_eq] at hP
  have hplaced := decode_placed crowdedDecodeConfig rfl x hx
  exact ⟨x, hx, hP.1, hP.2, hplaced.1, hplaced.2 0 hP.1⟩

/-- The second sequence does not fit: the first one is preempted into `waiting`, which no decode engine reads. -/
theorem not_decode_placed : ¬ ∀ config : SchedulerConfig, config.mode = .decode → ∀ x : OpState,
    Reachable (callSystem config) always x → x.sched.waiting = [] ∧ ∀ seqId, x.isLive seqId = true →
      seqId ∈ x.sched.waitingMigration ∨ ∃ d < x.sched.dp, seqId ∈ x.sched.running d := by
  intro h
  obtain ⟨x, hx, hP⟩ := Reachable.exists_of_run (T := callSystem crowdedDecodeConfig) (G := always)
    (P := fun x => x.isLive 0 && decide (x.sched.waiting = [0]) && decide (x.sched.waitingMigration = [1]))
    (s := OpState.init crowdedDecodeConfig) [handOver 0, handOver 1, .schedule] rfl (by decide +kernel)
  simp only [Bool.and_eq_true, decide_eq_true_eq] at hP
  have := (h crowdedDecodeConfig rfl x hx).1
  rw [hP.1.2] at this
  cases this

end evaluated

end NanoEngine
