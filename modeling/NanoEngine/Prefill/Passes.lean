import NanoEngine.Prefill.Schedule
import NanoEngine.Queues.Engine

/-!
# NanoEngine.Prefill.Passes — decode pass, swaps, serving and postprocessing

`TrackedQueues g s`: every sequence that runs or waits for its next chunk is `Tracked`.

* `schedule_tracked`: what a `schedule` call leaves behind.
* `serve_tracked`: handing the batches to the runner extends the runs of the scheduled sequences.
* `postprocessImpl_tracked`: postprocessing keeps the queues tracked.
-/

namespace NanoEngine

open Counting Scheduler PrefillState Transition

/-- Every sequence that runs or waits for its next chunk is where its run ends, or beyond its target. -/
def TrackedQueues (g : Prefills) (s : Scheduler) : Prop :=
  ∀ d < s.dp, ∀ id, id ∈ s.running d ∨ id ∈ s.prefilling d →
    ∀ a, s.seqTable id = some a → Tracked g id a

theorem TrackedQueues.table {R : Sequence → Sequence → Prop} {g : Prefills} {s s' : Scheduler}
    (h : TrackedQueues g s)
    (hs : SameQueues s s') (ht : TableRel R s s') (hR : ∀ a b, R a b → ∀ id, Tracked g id a → Tracked g id b) :
    TrackedQueues g s' := by
  intro d hd id hid b hb
  have hdp : s'.dp = s.dp := congrArg SchedulerConfig.dp hs.config
  rw [hs.running, hs.prefilling] at hid
  cases ha : s.seqTable id with
  | none =>
    rw [ht.missing id ha] at hb
    cases hb
  | some a =>
    obtain ⟨b', hb', hab⟩ := ht.entry id a ha
    rw [hb'] at hb
    cases hb
    exact hR a _ hab id (h d (hdp ▸ hd) id hid a ha)

theorem Tracked.keepsProgress {g : Prefills} {id : ℕ} {a b : Sequence} (h : Tracked g id a) (k : a.KeepsProgress b) :
    Tracked g id b :=
  h.congr k.tokenIds k.numTokens k.numPromptTokens k.numCheckpointedTokens

/-! ## The decode pass -/

section decode

variable [Xxh3] {L : Finset ℕ} {g : Prefills} {d seqId : ℕ} {rest : List ℕ} {st : DecodeState} {s s' : Scheduler}

/-- The decode pass of a rank: `rest` is what is still to be looked at. -/
structure DecodeTracked (L : Finset ℕ) (g : Prefills) (d : ℕ) (rest : List ℕ) (st : DecodeState) : Prop
    extends DecodeInv L d rest st where
  sound : SoundTable st.sched
  queues : TrackedQueues g st.sched
  pending : ∀ id ∈ st.skipped ++ rest, ∀ a, st.sched.seqTable id = some a → Tracked g id a

/-- A sequence of a decode pass stays tracked, or loses its place in the queue … -/
theorem DecodeTracked.decodeSeq (h : DecodeTracked L g d (seqId :: rest) st) (hd : d < st.sched.dp) :
    DecodeTracked L g d rest (decodeSeq d st seqId) := by
  have hinv := h.toDecodeInv.decodeSeq hd
  have hmem : ∀ id ∈ st.skipped ++ [seqId] ++ rest, id ∈ st.skipped ++ seqId :: rest :=
    fun id hid => by simpa using hid
  have hf := cacheEnsureBlocksForSeq_frame st.sched seqId false
  have htracked : ∀ a b : Sequence, a.KeepsHost b → ∀ id, Tracked g id a → Tracked g id b :=
    fun a b hab id ha => ha.keepsProgress hab.toKeepsProgress
  unfold Scheduler.decodeSeq at hinv ⊢
  dsimp only at hinv ⊢
  split
  case isTrue hfull =>
    rw [if_pos hfull] at hinv
    exact ⟨hinv, h.sound, h.queues, fun id hid => h.pending id (hmem id hid)⟩
  case isFalse hfull =>
    rw [if_neg hfull] at hinv
    split
    case h_1 e s₁ heq =>
      rw [heq] at hf hinv
      replace hf : HostFrame seqId st.sched s₁ := hf
      have hp := preemptImpl_spec s₁ d seqId
      have hsound := h.sound.frame hf fun a b _ hab ha => ha.keepsHost hab
      -- the sequence is preempted itself: it is in no queue of the pass any more
      have hidle : seqId ∉ st.skipped ++ rest ∧ (s₁.preemptImpl d seqId).Idle seqId := by
        have hwait : 0 < (s₁.preemptImpl d seqId).waiting.count seqId := by
          refine List.count_pos_iff.2 ?_
          rcases hp.waiting with hw | hw <;> rw [hw] <;> simp
        refine ⟨fun hm => ?_, hinv.one.idle (by dsimp only; omega)⟩
        have := List.count_pos_iff.2 hm
        have hle := hinv.one.le_one seqId
        dsimp only at hle
        unfold queueCount at hle
        omega
      have hq₁ := h.queues.table hf.toSameQueues (hf.table Sequence.KeepsHost.refl) htracked
      refine ⟨hinv, hsound.preempted hp, fun d' hd' id hid a ha => ?_, fun id hid a ha => ?_⟩
      · have hne : id ≠ seqId := by
          rintro rfl
          exact hid.elim (hidle.2 d' hd').1 (hidle.2 d' hd').2
        have hdp : (s₁.preemptImpl d seqId).dp = s₁.dp := congrArg SchedulerConfig.dp hp.config
        dsimp only at hid ha
        rw [hp.others id hne] at ha
        rw [hp.running, hp.prefilling] at hid
        exact hq₁ d' (hdp ▸ hd') id (hid.imp_left fun hmem => (mem_dropRunning.1 hmem).1) a ha
      · have hne : id ≠ seqId := fun heq => hidle.1 (heq ▸ hid)
        dsimp only at ha
        rw [hp.others id hne, hf.others id hne] at ha
        refine h.pending id ?_ a ha
        rcases List.mem_append.1 hid with hid | hid
        · exact List.mem_append_left _ hid
        · exact List.mem_append_right _ (List.mem_cons_of_mem _ hid)
    case h_2 s₁ heq =>
      rw [heq] at hf hinv
      replace hf : HostFrame seqId st.sched s₁ := hf
      have hsound₁ := h.sound.frame hf fun a b _ hab ha => ha.keepsHost hab
      have hq₁ := h.queues.table hf.toSameQueues (hf.table Sequence.KeepsHost.refl) htracked
      have hmarked : Frame (fun a b => b = { a with lastScheduledStep := s₁.currentStep }) seqId s₁
          (s₁.markScheduled seqId) := Frame.of_updateSeq _ _ fun _ => rfl
      have hfm : Frame (fun a b => ∃ c, a.KeepsHost c ∧ b = { c with lastScheduledStep := s₁.currentStep }) seqId
          st.sched (s₁.markScheduled seqId) := hf.comp hmarked fun a c b hac hcb => ⟨c, hac, hcb⟩
      have hentry : ∀ id b, (s₁.markScheduled seqId).seqTable id = some b →
        ∃ a, st.sched.seqTable id = some a ∧
          (Tracked g id a → Tracked g id b) := by
        intro id b hb
        by_cases hid : id = seqId
        · subst hid
          cases ha : st.sched.seqTable id with
          | none =>
            rw [hfm.missing ha] at hb
            cases hb
          | some a =>
            obtain ⟨b', hb', c, hac, rfl⟩ := hfm.entry a ha
            rw [hb'] at hb
            cases hb
            exact ⟨a, rfl, fun ht => (htracked a c hac id ht).congr rfl rfl rfl rfl⟩
        · rw [hfm.others id hid] at hb
          exact ⟨b, hb, fun ht => ht⟩
      refine ⟨hinv, hsound₁.frame hmarked ?_, fun d' hd' id hid b hb => ?_, fun id hid b hb => ?_⟩
      · rintro a _ - rfl ha
        exact ⟨ha.seqId, ha.target, ha.host⟩
      · obtain ⟨a, ha, himp⟩ := hentry id b hb
        have hdp : (s₁.markScheduled seqId).dp = st.sched.dp := congrArg SchedulerConfig.dp hfm.config
        dsimp only at hid hd'
        rw [hfm.running, hfm.prefilling] at hid
        exact himp (h.queues d' (hdp ▸ hd') id hid a ha)
      · obtain ⟨a, ha, himp⟩ := hentry id b hb
        exact himp (h.pending id (hmem id hid) a ha)

/-- … so do all the sequences of a rank. -/
theorem DecodeTracked.decodeSeqs (ids : List ℕ) (h : DecodeTracked L g d ids st) (hd : d < st.sched.dp) :
    DecodeTracked L g d [] (ids.foldl (Scheduler.decodeSeq d) st) := by
  induction ids generalizing st with
  | nil => exact h
  | cons seqId ids ih =>
    refine ih (h.decodeSeq hd) ?_
    unfold Scheduler.dp at *
    rwa [(config_decodeSeq d st seqId).1]

omit [Xxh3] in
theorem SoundTable.enters (h : SoundTable s) (he : EntersDummies s s') : SoundTable s' := by
  intro id b hb
  rcases he.entry id b hb with hb | hb
  · exact h id b hb
  · refine ⟨hb.seqId, ?_, fun hne => absurd hb.hostBlockTable hne⟩
    unfold promptTarget
    rw [hb.numPromptTokens, hb.numCheckpointedTokens, hb.tokenIds]
    rfl

theorem decodeRank_tracked (hd : d < s.dp) (hone : OneQueue L [] s)
    (hdum : ∀ id ∈ s.dummySeqIds, s.isReservedId id = true)
    (hfresh : ∀ id ∈ L, s.isReservedId id = false) (hsound : SoundTable s) (hqueues : TrackedQueues g s) :
    SoundTable (s.decodeRank d).2 ∧ TrackedQueues g (s.decodeRank d).2 := by
  obtain ⟨hpass, hconfig, -⟩ := decodeRank_passInv hd hone hdum hfresh
  have hset : ∀ d' id, id ∈ Function.update s.running d [] d' → id ∈ s.running d' := by
    intro d' id hid
    by_cases hdd : d' = d
    · subst hdd
      simp at hid
    · rwa [Function.update_of_ne hdd] at hid
  have hstart : DecodeTracked L g d (s.running d) (s.decodeStart d) := by
    refine ⟨⟨hone.move (fun id => ?_) fun _ _ => rfl, hdum, Function.update_self _ _ _, List.nodup_nil,
      by simp [decodeStart]⟩,
      hsound, fun d' hd' id hid => hqueues d' hd' id (hid.imp_left (hset d' id)), fun id hid => ?_⟩
    · simpa [decodeStart] using queueCount_setRunning hd [] id
    · exact hqueues d hd id (.inl (by simpa [decodeStart] using hid))
  have hfin := hstart.decodeSeqs _ hd
  obtain ⟨hconfig₁, -, -⟩ := decodeSeqs_frame (d := d) (s.running d) (s.decodeStart d)
  have hresult : (s.decodeRank d).2 =
    (decodeDummies d ((s.running d).foldl (Scheduler.decodeSeq d) (s.decodeStart d)).groupLens
      (List.range ((s.running d).foldl (Scheduler.decodeSeq d) (s.decodeStart d)).sched.group)
      { ((s.running d).foldl (Scheduler.decodeSeq d) (s.decodeStart d)).sched with
        running := Function.update ((s.running d).foldl (Scheduler.decodeSeq d) (s.decodeStart d)).sched.running d
          ((s.running d).foldl (Scheduler.decodeSeq d) (s.decodeStart d)).skipped }).2 := rfl
  generalize (s.running d).foldl (Scheduler.decodeSeq d) (s.decodeStart d) = st at hfin hconfig₁ hresult
  replace hconfig₁ : st.sched.config = s.config := hconfig₁
  have hd₁ : d < st.sched.dp := by unfold Scheduler.dp at *; rwa [hconfig₁]
  obtain ⟨he, -⟩ := decodeDummies_enters (s := { st.sched with
    running := Function.update st.sched.running d st.skipped }) (d := d) st.groupLens (List.range st.sched.group) hd₁
    fun g hg => List.mem_range.1 hg
  rw [← hresult] at he
  have hdp : (s.decodeRank d).2.dp = st.sched.dp := congrArg SchedulerConfig.dp he.config
  refine ⟨SoundTable.enters (s := { st.sched with running := Function.update st.sched.running d st.skipped })
    hfin.sound he, fun d' hd' id hid a ha => ?_⟩
  -- a queued id is live, so it is no dummy's
  have hres : s.isReservedId id = false := by
    refine hfresh id (hpass.one.live_of_pos (Nat.add_pos_left ?_ _)).1
    rcases hid with hid | hid
    · exact (List.count_pos_iff.2 hid).trans_le ((count_running_le hd' id))
    · have := List.count_pos_iff.2 hid
      have := count_le_totalCount hd' (s.decodeRank d).2.prefilling id
      unfold queueCount
      omega
  have hres₁ : st.sched.isReservedId id = false := (isReservedId_congr hconfig₁ id).trans hres
  rw [he.others id hres₁] at ha
  rw [he.running, he.prefilling] at hid
  dsimp only at hid ha
  by_cases hskip : d' = d ∧ id ∈ st.skipped
  · exact hfin.pending id (List.mem_append_left _ hskip.2) a ha
  · refine hfin.queues d' (hdp ▸ hd') id (hid.imp_left fun hm => ?_) a ha
    by_cases hdd : d' = d
    · subst hdd
      rw [Function.update_self] at hm
      exact absurd ⟨rfl, hm⟩ hskip
    · rwa [Function.update_of_ne hdd] at hm

/-- The decode passes of all ranks keep the queues tracked. -/
theorem decodeRanks_tracked {ranks : List ℕ} (hnodup : ranks.Nodup) (hranks : ∀ d ∈ ranks, d < s.dp)
    (hone : OneQueue L [] s) (hdum : ∀ id ∈ s.dummySeqIds, s.isReservedId id = true)
    (hfresh : ∀ id ∈ L, s.isReservedId id = false) (hsound : SoundTable s) (hqueues : TrackedQueues g s) :
    SoundTable (decodeRanks ranks s).2 ∧ TrackedQueues g (decodeRanks ranks s).2 := by
  induction ranks generalizing s with
  | nil => exact ⟨hsound, hqueues⟩
  | cons d ranks ih =>
    have hd := hranks d List.mem_cons_self
    obtain ⟨h₁, hc₁, -⟩ := decodeRank_passInv hd hone hdum hfresh
    obtain ⟨hsound₁, hqueues₁⟩ := decodeRank_tracked hd hone hdum hfresh hsound hqueues
    refine ih (List.nodup_cons.1 hnodup).2 (fun d' hd' => ?_) h₁.one h₁.dummies
      (fun id hid => ?_) hsound₁ hqueues₁
    · have := hranks d' (List.mem_cons_of_mem _ hd')
      unfold Scheduler.dp at *
      rwa [hc₁]
    · rw [isReservedId_congr hc₁]
      exact hfresh id hid

end decode

/-! ## A whole `schedule` call -/

/-- A prefill result: every sequence of it is about to be served its next chunk, the other queued ones are tracked. -/
structure ServedResult (g : Prefills) (s₀ s : Scheduler) (r : ScheduleResult) : Prop where
  groups : ∀ ids, ids ∈ r.dpGroupSeqIds ↔ ids ∈ r.dpSeqIds
  nodup : ∀ ids ∈ r.dpSeqIds, ids.Nodup
  queued : ∀ d < s.dp, ∀ id, id ∈ s.running d ∨ id ∈ s.prefilling d →
    (∀ ids ∈ r.dpSeqIds, id ∉ ids) →
    ∀ a, s.seqTable id = some a → Tracked g id a
  served : ∀ ids ∈ r.dpSeqIds, ∀ id ∈ ids, ∃ a, s.seqTable id = some a ∧ Served g s₀ id a

section schedule

variable [Xxh3] {L : Finset ℕ} {g : Prefills} {s s' : Scheduler}

omit [Xxh3] in
theorem mem_dpGroupSeqIds {dpSeqIds : List (List ℕ)} (hlen : dpSeqIds.length = s.dp)
    (isPrefill : Bool) (ids : List ℕ) :
    ids ∈ (s.makeScheduleResult dpSeqIds isPrefill).dpGroupSeqIds ↔ ids ∈ dpSeqIds := by
  have hpos := s.config.one_le_group
  change ids ∈ (List.range s.dp).flatMap (fun d => (List.range s.group).map fun _ => dpSeqIds.getD d []) ↔ _
  simp only [List.mem_flatMap, List.mem_map, List.mem_range]
  constructor
  · rintro ⟨d, hd, _, -, rfl⟩
    rw [List.getD_eq_getElem?_getD, List.getElem?_eq_getElem (hlen.symm ▸ hd), Option.getD_some]
    exact List.getElem_mem _
  · intro hmem
    obtain ⟨d, hd, rfl⟩ := List.getElem_of_mem hmem
    exact ⟨d, hlen ▸ hd, 0, hpos,
      by rw [List.getD_eq_getElem?_getD, List.getElem?_eq_getElem hd, Option.getD_some]⟩

/-- A prefill pass lists what it scheduled, and its queues stay tracked. -/
theorem schedulePrefill_tracked {s₀ : Scheduler} {prefill : List (List ℕ)}
    (hpre : ∀ id, s₀.isPrefilling id = s.isPrefilling id)
    (hone : OneQueue L [] s) (hdum : ∀ id ∈ s.dummySeqIds, s.isReservedId id = true)
    (hmode : s.config.mode ≠ .decode) (hsound : SoundTable s) (hqueues : TrackedQueues g s)
    (hpass : admitPasses coverTest (PrefillState.init s).continueAll.admissionFuel (PrefillState.init s).continueAll
      = true) (h : s.schedulePrefill = (.ok prefill, s')) :
    ∃ st, PrefillInv L [] s₀ g st ∧ st.sched = s' ∧ prefill = (List.range s'.dp).map st.scheduled ∧
      s'.config = s.config := by
  have hinit : PrefillInv L [] s₀ g (PrefillState.init s) := by
    refine ⟨⟨hone, hdum, fun _ => List.nodup_nil, by simp [PrefillState.init]⟩, hsound, fun d hd id hid => ?_,
      fun d _ id hid => by simp [PrefillState.init] at hid, fun id hid => ?_⟩
    · exact hqueues d hd id (hid.imp_left And.left)
    · rw [hpre] at hid
      unfold isPrefilling at hid
      simp only [List.any_eq_true, List.mem_range, List.contains_iff_mem] at hid
      obtain ⟨d, hd, hmem⟩ := hid
      exact .inr ⟨d, hd, .inl hmem⟩
  unfold schedulePrefill at h
  dsimp only at h
  split at h
  case h_1 => cases h
  case h_2 st hloop =>
    cases h
    have hsteps := admitLoop_steps (fun st seqId d ranks _ hW => by
      simp only [coverTest, queueTest, Bool.and_eq_true] at hW
      exact hW.1.2) hpass hloop
    clear hloop
    have hinv : PrefillInv L [] s₀ g st ∧ st.sched.config = s.config := by
      induction hsteps with
      | refl => exact ⟨hinit.continueAll, config_continueAll _⟩
      | tail _ hstep ih => exact ⟨ih.1.step (ih.2 ▸ hmode) hstep, hstep.config.trans ih.2⟩
    exact ⟨st, hinv.1, rfl, rfl, hinv.2⟩

/-- `schedule` serves what it lists, in either pass. -/
theorem schedule_tracked {r : ScheduleResult} (hone : OneQueue L [] s)
    (hdum : ∀ id ∈ s.dummySeqIds, s.isReservedId id = true) (hfresh : ∀ id ∈ L, s.isReservedId id = false)
    (hmode : s.config.mode ≠ .decode) (hsound : SoundTable s) (hqueues : TrackedQueues g s)
    (hpass : s.prefillPasses coverTest = true) (h : s.schedule = (.ok r, s')) :
    SoundTable s' ∧ (r.isPrefill = true → ServedResult g s s' r) ∧
      (r.isPrefill = false → TrackedQueues g s') := by
  have hone₀ : OneQueue L [] { s with currentStep := s.currentStep + 1 } := hone.move (fun _ => rfl) fun _ _ => rfl
  unfold schedule at h
  split at h
  case h_1 => cases h
  case h_2 prefill s₁ hpre =>
    obtain ⟨st, hinv, rfl, rfl, hc₁⟩ := schedulePrefill_tracked (s := { s with currentStep := s.currentStep + 1 })
      (fun id => (rfl : s.isPrefilling id = _)) hone₀ hdum hmode hsound hqueues hpass hpre
    split at h
    · cases h
      refine ⟨hinv.sound, fun _ => ⟨mem_dpGroupSeqIds (by simp) true, ?_, ?_, ?_⟩,
        fun hfalse => by cases hfalse⟩
      · intro ids hids
        obtain ⟨d, -, rfl⟩ := List.mem_map.1 hids
        exact hinv.nodup d
      · intro d hd id hid hnot a ha
        refine hinv.queued d hd id (hid.imp_left fun hm => ⟨hm, hnot _ ?_⟩) a ha
        exact List.mem_map_of_mem (List.mem_range.2 hd)
      · intro ids hids id hid
        obtain ⟨d, hd, rfl⟩ := List.mem_map.1 hids
        exact hinv.served d (List.mem_range.1 hd) id hid
    · cases h
      rename_i hempty
      have hnone : ∀ d < st.sched.dp, st.scheduled d = [] := by
        intro d hd
        by_contra hne
        refine hempty (List.any_eq_true.2 ⟨st.scheduled d, List.mem_map_of_mem (List.mem_range.2 hd), ?_⟩)
        simpa using hne
      have hq : TrackedQueues g st.sched := fun d hd id hid =>
        hinv.queued d hd id (hid.imp_left fun hm => ⟨hm, by simp [hnone d hd]⟩)
      obtain ⟨hs₂, hq₂⟩ := decodeRanks_tracked List.nodup_range
        (fun d hd => List.mem_range.1 hd) hinv.one hinv.dummies
        (fun id hid => by rw [isReservedId_congr hc₁]; exact hfresh id hid) hinv.sound hq
      exact ⟨hs₂, fun htrue => (by cases htrue), fun _ => hq₂⟩

end schedule

/-! ## The swaps of a step -/

section swaps

variable {g : Prefills} {s₀ s s' : Scheduler}

theorem TrackedQueues.swapFrame (h : TrackedQueues g s) (hf : SwapFrame s s') : TrackedQueues g s' :=
  h.table hf.toSameQueues hf.table fun _ _ hab _ ht => ht.keepsProgress hab

theorem Served.keepsProgress {id : ℕ} {a b : Sequence} (h : Served g s₀ id a) (k : a.KeepsProgress b) :
    Served g s₀ id b := by
  have htarget : promptTarget b = promptTarget a := by
    unfold promptTarget
    rw [k.numPromptTokens, k.numCheckpointedTokens]
  unfold Served
  rw [htarget, k.prefillStartOffset, k.tokenIds]
  obtain ⟨hchunk, hcont⟩ := h
  refine ⟨⟨?_, ?_, ?_, ?_, ?_⟩, hcont⟩
  · rw [k.prefillStartOffset]
    exact hchunk.nonneg
  · rw [k.prefillStartOffset, k.numTokens]
    exact hchunk.started
  · rw [htarget, k.numTokens]
    exact hchunk.within
  · rw [htarget, k.numPromptTokens]
    exact hchunk.target
  · rw [k.tokenIds, k.numPromptTokens]
    exact hchunk.prompt

theorem ServedResult.swapFrame {r : ScheduleResult} (h : ServedResult g s₀ s r) (hf : SwapFrame s s') :
    ServedResult g s₀ s' r := by
  have hdp : s'.dp = s.dp := congrArg SchedulerConfig.dp hf.config
  refine ⟨h.groups, h.nodup, fun d hd id hid hnot b hb => ?_, fun ids hids id hid => ?_⟩
  · rw [hf.running, hf.prefilling] at hid
    cases ha : s.seqTable id with
    | none =>
      rw [hf.table.missing id ha] at hb
      cases hb
    | some a =>
      obtain ⟨b', hb', hab⟩ := hf.table.entry id a ha
      rw [hb'] at hb
      cases hb
      exact (h.queued d (hdp ▸ hd) id hid hnot a ha).keepsProgress hab
  · obtain ⟨a, ha, hserved⟩ := h.served ids hids id hid
    obtain ⟨b, hb, hab⟩ := hf.table.entry id a ha
    exact ⟨b, hb, hserved.keepsProgress hab⟩

theorem SoundTable.completeSwaps (h : SoundTable s) (r : ScheduleResult) : SoundTable (s.completeSwaps r) := by
  have hout : ∀ (tasks : List SwapTask) (s : Scheduler), SoundTable s →
    SoundTable (tasks.foldl completeHostSwapOut s) := by
    intro tasks
    induction tasks with
    | nil => intro s h; exact h
    | cons task tasks ih =>
      intro s h
      exact ih _ (h.frame (completeHostSwapOut_frame s task) fun a b _ hab ha => ha.keepsHost hab)
  have hin : ∀ (flat : ℕ) (tasks : List SwapTask) (s : Scheduler), SoundTable s →
      SoundTable (tasks.foldl (completeHostSwapIn flat) s) := by
    intro flat tasks
    induction tasks with
    | nil => intro s h; exact h
    | cons task tasks ih =>
      intro s h
      refine ih _ (h.frame (completeHostSwapIn_frame flat s task) fun a b _ hab ha => ?_)
      refine ⟨hab.1.seqId.trans ha.seqId, ?_, fun hne => absurd hab.2 hne⟩
      unfold promptTarget
      rw [hab.1.numPromptTokens, hab.1.numCheckpointedTokens, hab.1.tokenIds]
      exact ha.target
  have hins : ∀ (tasks : List (List SwapTask)) (flat : ℕ) (s : Scheduler), SoundTable s →
      SoundTable (completeHostSwapInsFrom flat tasks s) := by
    intro tasks
    induction tasks with
    | nil => intro _ s h; exact h
    | cons group tasks ih =>
      intro flat s h
      exact ih _ _ (hin flat group s h)
  have h₁ : SoundTable (s.cacheCompleteHostSwapOuts r.swapOutTasks) := (hout r.swapOutTasks.flatten s h).congr rfl
  exact (hins r.swapInTasks 0 _ h₁).congr rfl

theorem completeSwaps_frame (s : Scheduler) (r : ScheduleResult) : SwapFrame s (s.completeSwaps r) :=
  (cacheCompleteHostSwapOuts_frame s _).trans (cacheCompleteHostSwapIns_frame _ _)

end swaps

/-! ## Serving -/

section serve

variable {g : Prefills} {s₀ s : Scheduler} {r : ScheduleResult}

/-- The rows of a sequence in the batch of a list: one for each time that it is listed. -/
theorem filter_rows_batch (hsound : SoundTable s) (ids : List ℕ) (isPrefill : Bool) (id : ℕ) :
    (sequenceRefsRunnerIn (ids.filterMap s.seqTable) isPrefill).rows.filter (fun row => decide (row.seqId = id)) =
      ((s.seqTable id).map fun a => List.replicate (ids.count id) (a.packed isPrefill)).getD [] := by
  rw [rows_sequenceRefsRunnerIn]
  induction ids with
  | nil => cases s.seqTable id <;> rfl
  | cons k ids ih =>
    cases hk : s.seqTable k with
    | none =>
      rw [List.filterMap_cons_none hk, ih]
      by_cases hid : k = id
      · subst hid
        simp [hk]
      · rw [List.count_cons_of_ne hid]
    | some a =>
      have hseq := (hsound k a hk).seqId
      rw [List.filterMap_cons_some hk, List.map_cons, List.filter_cons, a.packed_seqId, hseq, ih]
      by_cases hid : k = id
      · subst hid
        simp [hk, List.replicate_succ]
      · simp [hid]

/-- A listed sequence has one row, its own chunk. -/
theorem rowsFor_served (hsound : SoundTable s) (hgroups : ∀ ids, ids ∈ r.dpGroupSeqIds ↔ ids ∈ r.dpSeqIds)
    (hnodup : ∀ ids ∈ r.dpSeqIds, ids.Nodup) {id : ℕ} {a : Sequence} (ha : s.seqTable id = some a)
    (hlisted : ∃ ids ∈ r.dpSeqIds, id ∈ ids) : rowsFor (s.serializeRunBatches r) id = [a.packed r.isPrefill] := by
  have hrows : ∀ ids ∈ r.dpGroupSeqIds, (sequenceRefsRunnerIn (ids.filterMap s.seqTable) r.isPrefill).rows.filter
      (fun row => decide (row.seqId = id)) = if id ∈ ids then [a.packed r.isPrefill] else [] := by
    intro ids hids
    rw [filter_rows_batch hsound, ha, Option.map_some, Option.getD_some]
    split
    case isTrue hmem =>
      rw [List.count_eq_one_of_mem (hnodup ids ((hgroups ids).1 hids)) hmem]
      rfl
    case isFalse hmem => rw [List.count_eq_zero.2 hmem, List.replicate_zero]
  obtain ⟨ids, hids, hid⟩ := hlisted
  replace hids := (hgroups ids).2 hids
  unfold rowsFor serializeRunBatches
  generalize r.dpGroupSeqIds = groups at hrows hids
  induction groups with
  | nil => cases hids
  | cons ids' groups ih =>
    rw [List.map_cons, List.map_cons, hrows ids' List.mem_cons_self]
    by_cases hmem : id ∈ ids'
    · simp [hmem]
    · rw [if_neg hmem, List.find?_cons_of_neg (by simp)]
      refine ih (fun ids'' h => hrows ids'' (List.mem_cons_of_mem _ h)) ?_
      exact (List.mem_cons.1 hids).resolve_left fun heq => hmem (heq ▸ hid)

/-- A sequence that is not listed has none. -/
theorem rowsFor_unlisted (hsound : SoundTable s)
    (hgroups : ∀ ids, ids ∈ r.dpGroupSeqIds ↔ ids ∈ r.dpSeqIds) {id : ℕ}
    (hnot : ∀ ids ∈ r.dpSeqIds, id ∉ ids) : rowsFor (s.serializeRunBatches r) id = [] := by
  have hrows :
    ∀ rows ∈ ((s.serializeRunBatches r).map fun batch => batch.rows.filter (fun row => decide (row.seqId = id))),
      rows = [] := by
    intro rows hmem
    unfold serializeRunBatches at hmem
    simp only [List.mem_map, exists_exists_and_eq_and] at hmem
    obtain ⟨ids, hids, rfl⟩ := hmem
    rw [filter_rows_batch hsound, List.count_eq_zero.2 (hnot ids ((hgroups ids).1 hids))]
    cases s.seqTable id <;> rfl
  unfold rowsFor
  rw [List.find?_eq_none.2 fun rows hmem => by simp [hrows rows hmem], Option.getD_none]

/-- **Serving a prefill result extends the runs of its sequences** by consecutive slices. -/
theorem ServedResult.serve (h : ServedResult g s₀ s r) (hprefill : r.isPrefill = true) (hsound : SoundTable s)
    (hcovered : ∀ id run, g id = some run → run.Covered) :
    TrackedQueues (g.serve s₀ s r) s ∧ ∀ id run, g.serve s₀ s r id = some run → run.Covered := by
  -- a listed sequence has exactly one row, which continues its run or starts one
  have hserved : ∀ ids ∈ r.dpSeqIds, ∀ id ∈ ids, ∃ a run, s.seqTable id = some a ∧ a.Chunk ∧
      g.serve s₀ s r id = some run ∧ run.Covered ∧ run.At a.tokenIds (promptTarget a) a.numTokens := by
    intro ids hids id hid
    obtain ⟨a, ha, hchunk, hcont⟩ := h.served ids hids id hid
    have hrows := rowsFor_served hsound h.groups h.nodup ha ⟨ids, hids, hid⟩
    rw [hprefill] at hrows
    have hserve : g.serve s₀ s r id = PrefillRun.follow (g id) (s₀.isPrefilling id) [a.packed true] a := by
      unfold Prefills.serve
      rw [ha, hrows]
    rw [hserve]
    unfold PrefillRun.follow
    split
    case isTrue hpre =>
      obtain ⟨hopen, run, hrun, hcov, hat⟩ := hcont hpre
      rw [hrun]
      exact ⟨a, _, ha, hchunk, rfl, PrefillRun.covered_continued hchunk hcov hat hopen, rfl, rfl, rfl⟩
    case isFalse => exact ⟨a, _, ha, hchunk, rfl, PrefillRun.covered_admitted hchunk, rfl, rfl, rfl⟩
  have hunlisted : ∀ id, (∀ ids ∈ r.dpSeqIds, id ∉ ids) → g.serve s₀ s r id = g id := by
    intro id hnot
    unfold Prefills.serve
    rw [rowsFor_unlisted hsound h.groups hnot]
    cases s.seqTable id <;> rfl
  refine ⟨fun d hd id hid a ha => ?_, fun id run hrun => ?_⟩
  · by_cases hlisted : ∃ ids ∈ r.dpSeqIds, id ∈ ids
    · obtain ⟨ids, hids, hmem⟩ := hlisted
      obtain ⟨a', run, ha', hchunk, hrun, hcov, hat⟩ := hserved ids hids id hmem
      obtain rfl := Option.some.inj (ha.symm.trans ha')
      exact fun _ => ⟨hchunk.target, run, hrun, hcov, hat⟩
    · have hnot : ∀ ids ∈ r.dpSeqIds, id ∉ ids := fun ids hids hmem => hlisted ⟨ids, hids, hmem⟩
      unfold Tracked
      rw [hunlisted id hnot]
      exact h.queued d hd id hid hnot a ha
  · by_cases hlisted : ∃ ids ∈ r.dpSeqIds, id ∈ ids
    · obtain ⟨ids, hids, hmem⟩ := hlisted
      obtain ⟨-, run', -, -, hrun', hcov, -⟩ := hserved ids hids id hmem
      obtain rfl := Option.some.inj (hrun.symm.trans hrun')
      exact hcov
    · rw [hunlisted id fun ids hids hmem => hlisted ⟨ids, hids, hmem⟩] at hrun
      exact hcovered id run hrun

end serve

/-! ## Postprocessing -/

section postprocess

variable [Xxh3] {g : Prefills} {s : Scheduler}

omit [Xxh3] in
theorem Sequence.Sound.postEntry {id : ℕ} {a b : Sequence} (h : a.Sound id) (k : PostEntry a b) : b.Sound id := by
  have htarget : promptTarget b = promptTarget a := by
    unfold promptTarget
    rw [k.numPromptTokens, k.numCheckpointedTokens]
  obtain ⟨applied, htokens, hnum, -⟩ := k.appended
  have hlen := h.target
  refine ⟨k.seqId.trans h.seqId, ?_, fun hne => ?_⟩
  · rw [htarget, htokens, List.length_append]
    push_cast
    omega
  · have hhost := h.host (k.hostBlockTable ▸ hne)
    rw [htarget, hnum]
    split
    · exact hhost
    · rw [List.length_append]
      push_cast
      omega

omit [Xxh3] in
theorem Tracked.postEntry {id : ℕ} {a b : Sequence} (h : Tracked g id a) (hsound : a.Sound id) (k : PostEntry a b) :
    Tracked g id b := by
  have htarget : promptTarget b = promptTarget a := by
    unfold promptTarget
    rw [k.numPromptTokens, k.numCheckpointedTokens]
  obtain ⟨applied, htokens, hnum, -⟩ := k.appended
  by_cases happlied : applied = []
  · subst happlied
    rw [if_pos rfl] at hnum
    exact h.congr (by simpa using htokens) hnum k.numPromptTokens k.numCheckpointedTokens
  · -- tokens were appended: all of them are counted now
    intro hlt
    rw [htarget, hnum, if_neg happlied, List.length_append] at hlt
    have := hsound.target
    push_cast at hlt
    omega

theorem SoundTable.postprocessSeq (h : SoundTable s) (d seqId : ℕ) (row : Option (List ℤ)) (logprobs : List ℚ) :
    SoundTable (s.postprocessSeq d seqId row logprobs) := by
  refine h.entry (postprocessSeq_frame s d seqId row logprobs).others fun b hb => ?_
  cases ha : s.seqTable seqId with
  | none =>
    rw [(postprocessSeq_frame s d seqId row logprobs).missing ha] at hb
    cases hb
  | some a =>
    obtain ⟨b', hb', hab⟩ := postprocessSeq_entry s d seqId row logprobs ha
    obtain rfl := Option.some.inj (hb'.symm.trans hb)
    exact (h seqId a ha).postEntry hab

/-- Postprocessing keeps entries sound and queues tracked; `groups` lists dummies and queued sequences. -/
theorem postprocessImpl_tracked (hsound : SoundTable s) (hqueues : TrackedQueues g s) {groups : List (List ℕ)}
    (hgroups : ∀ id ∈ groups.flatten, id ∉ s.dummySeqIds → ∃ d < s.dp, id ∈ s.running d)
    (rows : List (List (List ℤ)))
    (logprobs : List (List (List ℚ))) : SoundTable (s.postprocessImpl groups rows logprobs) ∧
      TrackedQueues g (s.postprocessImpl groups rows logprobs) := by
  -- the ids that were queued when postprocessing began; no other id is queued by it
  let queued : ℕ → Prop := fun id => ∃ d < s.dp, id ∈ s.running d ∨ id ∈ s.prefilling d
  have hinv := postprocessGroups_induction (P := fun s' => (s'.config = s.config ∧ s'.dummySeqIds = s.dummySeqIds) ∧
      SoundTable s' ∧ (∀ id, queued id → ∀ a, s'.seqTable id = some a → Tracked g id a) ∧
      ∀ d < s.dp, ∀ id, id ∈ s'.running d ∨ id ∈ s'.prefilling d → queued id) 0 groups ?_ rows logprobs
      (s := { s with
        lastStepTokenIds := fun _ => none
        running := fun d => (s.running d).filter (fun id => decide (id ∉ scheduledIds s.group groups d)) }) ?_
  · obtain ⟨⟨hconfig, -⟩, hsound', htracked, hqueued⟩ := hinv
    refine ⟨hsound', fun d hd id hid => htracked id (hqueued d ?_ id hid)⟩
    exact lt_of_lt_of_eq hd (congrArg SchedulerConfig.dp hconfig)
  · rintro s' d seqId row lps hmem ⟨⟨hconfig, hdum⟩, hsound', htracked, hqueued⟩
    have hf := postprocessSeq_frame s' d seqId row lps
    refine ⟨⟨hf.config.trans hconfig, hf.dummySeqIds.trans hdum⟩, hsound'.postprocessSeq d seqId row lps,
      fun id hid b hb => ?_, fun d' hd' id hid => ?_⟩
    · by_cases hne : id = seqId
      · subst hne
        cases ha : s'.seqTable id with
        | none =>
          rw [hf.missing ha] at hb
          cases hb
        | some a =>
          obtain ⟨b', hb', hab⟩ := postprocessSeq_entry s' d id row lps ha
          obtain rfl := Option.some.inj (hb'.symm.trans hb)
          exact (htracked id hid a ha).postEntry (hsound' id a ha) hab
      · exact htracked id hid b (hf.others id hne ▸ hb)
    · rcases postprocessSeq_queued s' d seqId row lps hid with hold | ⟨rfl, hreal⟩
      · exact hqueued d' hd' id hold
      · obtain ⟨d₀, hd₀, hrun⟩ := hgroups id hmem (hdum ▸ hreal)
        exact ⟨d₀, hd₀, .inl hrun⟩
  · refine ⟨⟨rfl, rfl⟩, hsound, fun id ⟨d, hd, hid⟩ => hqueues d hd id hid,
      fun d hd id hid => ⟨d, hd, ?_⟩⟩
    exact hid.imp_left fun hm => List.mem_of_mem_filter hm

end postprocess

/-! ## The other events of the engine -/

/-- An event between two steps: what is queued was queued before, with the same counters. -/
structure EventFrame (s s' : Scheduler) : Prop where
  config : s'.config = s.config
  sound : SoundTable s → SoundTable s'
  running : ∀ d, (s'.running d).Sublist (s.running d)
  prefilling : ∀ d, (s'.prefilling d).Sublist (s.prefilling d)
  entry : ∀ d < s.dp, ∀ id, id ∈ s.running d ∨ id ∈ s.prefilling d → ∀ b, s'.seqTable id = some b →
    ∃ a, s.seqTable id = some a ∧ a.SameChunk b

theorem EventFrame.tracked {g : Prefills} {s s' : Scheduler} (h : EventFrame s s') (hq : TrackedQueues g s) :
    TrackedQueues g s' := by
  intro d hd id hid b hb
  have hd : d < s.dp := lt_of_lt_of_eq hd (congrArg SchedulerConfig.dp h.config)
  have hold : id ∈ s.running d ∨ id ∈ s.prefilling d :=
    hid.imp (fun hmem => (h.running d).subset hmem) fun hmem => (h.prefilling d).subset hmem
  obtain ⟨a, ha, hab⟩ := h.entry d hd id hold b hb
  exact (hq d hd id hold a ha).congr hab.tokenIds hab.numTokens hab.numPromptTokens hab.numCheckpointedTokens

section events

variable {config : SchedulerConfig} {x x' : EngineState}

/-- The queued sequences are live. -/
theorem CallInv.live_of_queued (h : CallInv config x.ops) {d id : ℕ} (hd : d < x.sched.dp)
    (hid : id ∈ x.sched.running d ∨ id ∈ x.sched.prefilling d) : x.isLive id = true := by
  have hpos : 0 < queueCount x.sched id + ([] : List ℕ).count id := by
    unfold queueCount
    rcases hid with hid | hid
    · have := List.count_pos_iff.2 hid
      have := count_le_totalCount hd x.sched.running id
      omega
    · have := List.count_pos_iff.2 hid
      have := count_le_totalCount hd x.sched.prefilling id
      omega
  obtain ⟨hmem, hunf⟩ := h.one.live_of_pos hpos
  simp only [EngineState.isLive, Bool.and_eq_true, decide_eq_true_eq]
  exact ⟨hmem, hunf⟩

theorem EngineState.eventFrame [Xxh3] {op : EngineOp} (h : CallInv config x.ops) (hstep : EngineState.Step x op x')
    (hop : ∀ rows logprobs, op ≠ .step rows logprobs) : EventFrame x.sched x'.sched := by
  have hadd : ∀ {seq : Sequence} {x' : EngineState}, seq.Sound seq.seqId → x.add seq = some x' →
      EventFrame x.sched x'.sched := by
    intro seq x' hseq hx
    unfold EngineState.add at hx
    split at hx
    case isTrue => cases hx
    case isFalse hfree =>
      simp only [Bool.or_eq_true, not_or, Bool.not_eq_true] at hfree
      have hspec := addSequence_spec x.sched seq
      cases hx
      refine ⟨hspec.config, fun hsound => hsound.entry (fun id (hid : id ≠ seq.seqId) => ?_) fun b hb => ?_,
        fun d => ?_,
        fun d => ?_, fun d hd id hid b hb => ?_⟩
      · rw [hspec.seqTable, Function.update_of_ne hid]
      · rw [hspec.seqTable, Function.update_self] at hb
        cases hb
        exact hseq
      · rw [hspec.running]
      · rw [hspec.prefilling]
      · have hne : id ≠ seq.seqId := by
          rintro rfl
          have hlive := h.live_of_queued hd hid
          rw [hfree.1] at hlive
          cases hlive
        rw [hspec.seqTable, Function.update_of_ne hne] at hb
        exact ⟨b, hb, rfl, rfl, rfl, rfl, rfl⟩
  -- every event but a step leaves the entries of the queued sequences, or drops them
  cases hstep with
  | added request hx =>
    refine hadd ⟨rfl, ?_, fun hne => absurd rfl hne⟩ hx
    simp [promptTarget, requestToSequence, Sequence.new]
  | handedOver request hover hx =>
    refine hadd ⟨rfl, ?_, fun hne => absurd rfl hne⟩ hx
    simp only [WireRequestMigrate.handedOver, Bool.and_eq_true, decide_eq_true_eq] at hover
    simp only [promptTarget, migrateRequestToSequence, Sequence.new]
    omega
  | stepped rows logprobs => exact absurd rfl (hop rows logprobs)
  | aborted seqId =>
    cases hfound : (x.sched.abortImpl seqId).1 with
    | false =>
      rw [abortImpl_not_found hfound]
      exact ⟨rfl, id, fun _ => .refl _, fun _ => .refl _, fun _ _ _ _ b hb => ⟨b, hb, rfl, rfl, rfl, rfl, rfl⟩⟩
    | true =>
      have hab := abortImpl_found hfound
      refine ⟨hab.config, fun hsound => hsound.congr hab.seqTable, fun d => ?_, fun d => ?_,
        fun d _ id _ b hb => ?_⟩
      · rw [hab.running]
        exact List.filter_sublist
      · rw [hab.prefilling]
        exact List.filter_sublist
      · rw [hab.seqTable] at hb
        exact ⟨b, hb, rfl, rfl, rfl, rfl, rfl⟩
  | @freed seqId hmig =>
    have hfreed := freeToBeMigrated_spec hmig
    have hf : Frame (fun a b => b = { a with status := .finished }) seqId x.sched
        (x.sched.updateSeq seqId (fun seq => { seq with status := .finished })) := Frame.of_updateSeq _ _ fun _ => rfl
    refine ⟨hfreed.config, fun hsound => ?_, fun d => ?_, fun d => ?_, fun d _ id _ b hb => ?_⟩
    · refine (hsound.frame hf ?_).congr hfreed.seqTable
      rintro a _ - rfl ha
      exact ⟨ha.seqId, ha.target, ha.host⟩
    · rw [hfreed.running]
    · rw [hfreed.prefilling]
    · rw [hfreed.seqTable] at hb
      change (x.sched.updateSeq seqId (fun seq => { seq with status := .finished })).seqTable id = some b at hb
      by_cases hne : id = seqId
      · subst hne
        cases ha : x.sched.seqTable id with
        | none =>
          rw [hf.missing ha] at hb
          cases hb
        | some a =>
          obtain ⟨b', hb', rfl⟩ := hf.entry a ha
          obtain rfl := Option.some.inj (hb'.symm.trans hb)
          exact ⟨a, rfl, rfl, rfl, rfl, rfl, rfl⟩
      · rw [hf.others id hne] at hb
        exact ⟨b, hb, rfl, rfl, rfl, rfl, rfl⟩
  | toggled enabled =>
    exact ⟨rfl, id, fun _ => .refl _, fun _ => .refl _, fun _ _ _ _ b hb => ⟨b, hb, rfl, rfl, rfl, rfl, rfl⟩⟩

end events

end NanoEngine
