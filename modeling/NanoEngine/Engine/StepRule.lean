import NanoEngine.Engine.Queued
import NanoEngine.Streams.Main

/-!
# NanoEngine.Engine.StepRule — invariants of the cache and the sequences along an engine step

`StepRule W D P L J` collects what has to be shown of `J`: it does not depend on the queues, and every operation of a
step keeps it where it passes its test.  `StepRule.step`: then a whole step keeps it, also one whose `schedule` fails.
-/

namespace NanoEngine

open Scheduler

variable [Xxh3]

/-- `J` is kept by the operations of an engine step on sequences of `L`. -/
structure StepRule (W : PrefillState.RankTest) (D : DecodeTest) (P : PostTest) (L : Finset ℕ)
    (J : Scheduler → Prop) :
    Prop where
  frame : ∀ s s', s'.config = s.config → s'.cache = s.cache → s'.seqTable = s.seqTable → J s → J s'
  route : ∀ s seqId, J s → J (s.routeCandidates seqId).2
  note : ∀ s affinity wait, J s → J (s.setCache { s.cache with sessionAffinity := affinity, sessionWait := wait })
  mark : ∀ s seqId, J s → J (s.markScheduled seqId)
  advance : ∀ s seqId newTokens dispatch, J s →
    J (s.updateSeq seqId (fun seq => seq.continueWith newTokens dispatch))
  restore : ∀ st seqId dpIdx, J st.sched → seqId ∈ L → st.sched.cacheSeqHasHostBlocks seqId = true →
    W st seqId dpIdx = true → J (st.sched.cacheTryRestoreHostBlocks seqId dpIdx).2
  tryOn : ∀ st seqId dpIdx, J st.sched → seqId ∈ L → st.sched.cacheSeqHasHostBlocks seqId = false →
    W st seqId dpIdx = true → J (st.tryOn seqId dpIdx).2
  grow : ∀ st seqId dpIdx, J st.sched → seqId ∈ L → D st seqId dpIdx = true →
    J (st.sched.cacheEnsureBlocksForSeq seqId false).2
  preempt : ∀ s seqId dpIdx, J s → seqId ∈ L → J (s.preemptImpl dpIdx seqId)
  dummies : ∀ s s', EntersDummies s s' → J s → J s'
  swaps : ∀ s r, J s → J (s.completeSwaps r)
  post : ∀ s seqId dpIdx row logprobs, J s → seqId ∈ L → seqId ∉ s.dummySeqIds → P s seqId = true →
    J (s.postprocessSeq dpIdx seqId row logprobs)
  report : ∀ s dpSeqIds track previous, J s → J (s.recordCompleteStep dpSeqIds track previous).2

namespace StepRule

variable {W : PrefillState.RankTest} {D : DecodeTest} {P : PostTest} {L : Finset ℕ} {J : Scheduler → Prop}
  {st : PrefillState} {s s' : Scheduler} {seqId dpIdx : ℕ}

theorem notePlaced (hJ : StepRule W D P L J) (h : J st.sched) : J (st.notePlaced dpIdx seqId).sched :=
  hJ.note st.sched _ _ h

theorem popQueue (hJ : StepRule W D P L J) (h : J st.sched) : J st.popQueue.sched := by
  refine hJ.frame st.sched _ ?_ ?_ ?_ h <;> unfold PrefillState.popQueue PrefillState.withSched <;> split <;> rfl

theorem join (hJ : StepRule W D P L J) (h : J st.sched) (groupId : ℕ) (newTokens : ℤ) :
    J (st.join dpIdx groupId seqId newTokens).sched :=
  hJ.mark _ seqId (hJ.frame st.sched (st.sched.pushRunning dpIdx seqId) rfl rfl rfl h)

theorem tryRank (hJ : StepRule W D P L J) (h : J st.sched) (hlive : seqId ∈ L) (hpass : W st seqId dpIdx = true) :
    J (st.tryRank seqId dpIdx).2.sched := by
  unfold PrefillState.tryRank
  split
  case isTrue hhost =>
    have hrestore := hJ.restore st seqId dpIdx h hlive hhost hpass
    split
    case h_1 e s heq =>
      rw [heq] at hrestore
      exact hrestore
    case h_2 s heq =>
      rw [heq] at hrestore
      have hpop : J (st.withSched s).popQueue.sched := hJ.popQueue hrestore
      have hpush := hJ.frame (st.withSched s).popQueue.sched
        ((st.withSched s).popQueue.sched.pushRunning dpIdx seqId) rfl
        rfl rfl hpop
      exact hJ.note _ _ _ hpush
    case h_3 s heq =>
      rw [heq] at hrestore
      exact hrestore
  case isFalse hhost =>
    have htried := hJ.tryOn st seqId dpIdx h hlive (by simpa using hhost) hpass
    split
    case h_1 e s heq =>
      rw [heq] at htried
      exact htried
    case h_2 newTokens s heq =>
      rw [heq] at htried
      have hpop : J (st.withSched s).popQueue.sched := hJ.popQueue htried
      exact hJ.notePlaced (hJ.join hpop _ newTokens)
    case h_3 s heq =>
      rw [heq] at htried
      exact htried

theorem continueSeq (hJ : StepRule W D P L J) (h : J st.sched) : J (PrefillState.continueSeq dpIdx st seqId).sched := by
  unfold PrefillState.continueSeq
  split
  case h_1 => exact h
  case h_2 seq hseq =>
    dsimp only
    split
    case isTrue => exact hJ.frame st.sched _ rfl rfl rfl h
    case isFalse =>
      have hadvance (newTokens : ℤ) (dispatch : List ℤ) :
          J (st.withSched (st.sched.updateSeq seqId (fun seq => seq.continueWith newTokens dispatch))).sched :=
        hJ.advance st.sched seqId newTokens dispatch h
      exact hJ.join (hadvance _ _) _ _

/-- The continuations and the admission loop. -/
theorem admitLoop (hJ : StepRule W D P L J) (h : J s) (hqueued : ∀ id ∈ s.queued, id ∈ L) {fuel : ℕ}
    (hpass : PrefillState.loopPasses W fuel (PrefillState.init s).continueAll = true) :
    J (PrefillState.admitLoop fuel (PrefillState.init s).continueAll).2.sched ∧
      (PrefillState.admitLoop fuel (PrefillState.init s).continueAll).2.LiveIn L := by
  have hinit : (PrefillState.init s).LiveIn L := ⟨hqueued, fun d id hid => by cases hid⟩
  have hcont := PrefillState.continueAll_rule (I := fun st => J st.sched ∧ st.LiveIn L) (H := (· ∈ L))
    (fun st d id hst hid => hst.2.queued id (mem_queued_prefilling hid))
    (fun st d hst => ⟨hJ.frame st.sched _ rfl rfl rfl hst.1, hst.2.takePrefilling d⟩)
    (fun st d id hst hid => ⟨hJ.continueSeq hst.1, hst.2.continueSeq hid⟩) ⟨h, hinit⟩
  exact PrefillState.admitLoop_rule (I := fun st => J st.sched ∧ st.LiveIn L) (H := (· ∈ L))
    (fun st id hst hhead => hst.2.head hhead)
    (fun st id hst => ⟨hJ.route st.sched id hst.1, hst.2.routeCandidates id⟩)
    (fun st id d hst hid hW => ⟨hJ.tryRank hst.1 hid hW, hst.2.tryRank hid d⟩) hpass hcont

theorem decodeSeq (hJ : StepRule W D P L J) {st : DecodeState} (h : J st.sched) (hlive : seqId ∈ L)
    (hpass : D st seqId dpIdx = true) : J (Scheduler.decodeSeq dpIdx st seqId).sched := by
  have hgrow := hJ.grow st seqId dpIdx h hlive hpass
  unfold Scheduler.decodeSeq
  dsimp only
  split
  case isTrue => exact h
  case isFalse =>
    split
    case h_1 e s heq =>
      rw [heq] at hgrow
      exact hJ.preempt s seqId dpIdx hgrow hlive
    case h_2 s heq =>
      rw [heq] at hgrow
      exact hJ.mark s seqId hgrow

/-- The decode pass of a rank; what it lists is live or a dummy. -/
theorem decodeRank (hJ : StepRule W D P L J) (h : J s) (hqueued : ∀ id ∈ s.queued, id ∈ L) (hd : dpIdx < s.dp)
    (hpass : decodeSeqsPass D dpIdx (s.running dpIdx) (s.decodeStart dpIdx) = true) :
    J (s.decodeRank dpIdx).2 ∧ (∀ id ∈ (s.decodeRank dpIdx).2.queued, id ∈ L) ∧
      (s.decodeRank dpIdx).2.config = s.config ∧ s.dummySeqIds ⊆ (s.decodeRank dpIdx).2.dummySeqIds ∧
      ∀ id ∈ (s.decodeRank dpIdx).1, id ∈ L ∨ id ∈ (s.decodeRank dpIdx).2.dummySeqIds := by
  have hstart : (s.decodeStart dpIdx).LiveIn L := by
    refine ⟨fun id hid => hqueued id ?_, List.forall_mem_nil _, List.forall_mem_nil _⟩
    rcases hid with hid | hid | ⟨d, hid⟩ | hid
    · exact .inl hid
    · exact .inr (.inl hid)
    · by_cases hne : d = dpIdx
      · subst hne
        simp [decodeStart] at hid
      · exact mem_queued_running (by simpa [decodeStart, Function.update_of_ne hne] using hid)
    · exact .inr (.inr (.inr hid))
  obtain ⟨⟨hJ', hlive⟩, hconfig, hdummy⟩ :=
    decodeSeqs_rule (H := (· ∈ L)) (I := fun st => (J st.sched ∧ st.LiveIn L) ∧
      st.sched.config = s.config ∧ st.sched.dummySeqIds = s.dummySeqIds)
    (fun st id hst hid hD => ⟨⟨hJ.decodeSeq hst.1.1 hid hD, hst.1.2.decodeSeq hid dpIdx⟩,
      (config_decodeSeq dpIdx st id).1.trans hst.2.1, (config_decodeSeq dpIdx st id).2.trans hst.2.2⟩)
    (fun id hid => hqueued id (mem_queued_running hid)) hpass
    ⟨⟨hJ.frame s _ rfl rfl rfl h, hstart⟩, rfl, rfl⟩
  unfold Scheduler.decodeRank
  dsimp only
  set st := (s.running dpIdx).foldl (Scheduler.decodeSeq dpIdx) (s.decodeStart dpIdx)
  set s₁ : Scheduler := { st.sched with running := Function.update st.sched.running dpIdx st.skipped } with hs₁
  have hdp : dpIdx < s₁.dp := by
    unfold Scheduler.dp
    rw [show s₁.config = s.config from hconfig]
    exact hd
  obtain ⟨henters, hlisted⟩ := decodeDummies_enters st.groupLens (List.range s₁.group) hdp fun g hg =>
    List.mem_range.1 hg
  -- the rank's queue is what the pass skipped; the other queues are untouched
  have hqueued₁ : ∀ id ∈ s₁.queued, id ∈ L := by
    rintro id (hid | hid | ⟨d, hid⟩ | hid)
    · exact hlive.queued id (.inl hid)
    · exact hlive.queued id (.inr (.inl hid))
    · by_cases hne : d = dpIdx
      · subst hne
        simp only [hs₁, Function.update_self] at hid
        exact hlive.skipped id hid
      · simp only [hs₁, Function.update_of_ne hne] at hid
        exact hlive.queued id (mem_queued_running hid)
    · exact hlive.queued id (.inr (.inr (.inr hid)))
  refine ⟨hJ.dummies _ _ henters (hJ.frame st.sched s₁ rfl rfl rfl hJ'), fun id hid => hqueued₁ id ?_,
    henters.config.trans hconfig, fun id hid => henters.kept (hdummy ▸ hid), fun id hid => ?_⟩
  · unfold Scheduler.queued at hid ⊢
    rwa [henters.waiting, henters.waitingMigration, henters.running, henters.prefilling] at hid
  · rcases List.mem_append.1 hid with hid | hid
    · exact .inl (hlive.scheduled id hid)
    · exact .inr (hlisted id hid)

theorem decodeRanks (hJ : StepRule W D P L J) (ranks : List ℕ) (h : J s) (hqueued : ∀ id ∈ s.queued, id ∈ L)
    (hranks : ∀ d ∈ ranks, d < s.dp) (hpass : decodeRanksPass D ranks s = true) :
    J (Scheduler.decodeRanks ranks s).2 ∧ (∀ id ∈ (Scheduler.decodeRanks ranks s).2.queued, id ∈ L) ∧
      s.dummySeqIds ⊆ (Scheduler.decodeRanks ranks s).2.dummySeqIds ∧
      ∀ ids ∈ (Scheduler.decodeRanks ranks s).1, ∀ id ∈ ids,
        id ∈ L ∨ id ∈ (Scheduler.decodeRanks ranks s).2.dummySeqIds := by
  induction ranks generalizing s with
  | nil => exact ⟨h, hqueued, fun _ hid => hid, fun ids hids => by cases hids⟩
  | cons d ranks ih =>
    rw [decodeRanksPass, Bool.and_eq_true] at hpass
    obtain ⟨h₁, hq₁, hconfig, hkept, hlisted⟩ := hJ.decodeRank h hqueued (hranks d List.mem_cons_self) hpass.1
    have hdp : (s.decodeRank d).2.dp = s.dp := congrArg SchedulerConfig.dp hconfig
    obtain ⟨h₂, hq₂, hkept₂, hlisted₂⟩ :=
      ih h₁ hq₁ (fun d' hd' => hdp ▸ hranks d' (List.mem_cons_of_mem _ hd')) hpass.2
    refine ⟨h₂, hq₂, hkept.trans hkept₂, fun ids hids id hid => ?_⟩
    rcases List.mem_cons.1 hids with rfl | hids
    · exact (hlisted id hid).imp_right fun hdummy => hkept₂ hdummy
    · exact hlisted₂ ids hids id hid

/-- **A `schedule` call keeps `J`**, whatever it returns, and its result lists live sequences and dummies. -/
theorem schedule (hJ : StepRule W D P L J) (h : J s) (hqueued : ∀ id ∈ s.queued, id ∈ L)
    (hpass : s.scheduleTested W D = true) : J s.schedule.2 ∧ (∀ id ∈ s.schedule.2.queued, id ∈ L) ∧
      ∀ r, s.schedule.1 = .ok r → ∀ id ∈ r.dpSeqIds.flatten, id ∈ L ∨ id ∈ s.schedule.2.dummySeqIds := by
  unfold scheduleTested at hpass
  rw [Bool.and_eq_true] at hpass
  obtain ⟨hloop, hdecode⟩ := hpass
  have hstart : J { s with currentStep := s.currentStep + 1 } := hJ.frame s _ rfl rfl rfl h
  obtain ⟨htried, hlive⟩ := hJ.admitLoop (s := { s with currentStep := s.currentStep + 1 }) hstart hqueued hloop
  unfold Scheduler.schedule
  unfold Scheduler.schedulePrefill at hdecode ⊢
  dsimp only at hdecode ⊢
  generalize hrun : PrefillState.admitLoop _ (PrefillState.init
    { s with currentStep := s.currentStep + 1 }).continueAll =
    run at htried hlive hdecode ⊢
  obtain ⟨o, st⟩ := run
  cases o with
  | error e => exact ⟨htried, hlive.queued, fun r hr => by cases hr⟩
  | ok u =>
    dsimp only at htried hlive hdecode ⊢
    split
    case isTrue hsome =>
      refine ⟨htried, hlive.queued, fun r hr id hid => ?_⟩
      cases hr
      obtain ⟨ids, hids, hmem⟩ := List.mem_flatten.1 hid
      obtain ⟨d, -, rfl⟩ := List.mem_map.1 hids
      exact .inl (hlive.scheduled d id hmem)
    case isFalse hnone =>
      rw [Bool.or_eq_true] at hdecode
      obtain ⟨hfin, hq, -, hlisted⟩ := hJ.decodeRanks (List.range st.sched.dp) htried hlive.queued
        (fun d hd => List.mem_range.1 hd) (hdecode.resolve_left hnone)
      refine ⟨hfin, hq, fun r hr id hid => ?_⟩
      cases hr
      obtain ⟨ids, hids, hmem⟩ := List.mem_flatten.1 hid
      exact hlisted ids hids id hmem

/-- **An engine step keeps `J`.** -/
theorem step (hJ : StepRule W D P L J) {x : EngineState} (h : J x.sched) (hqueued : ∀ id ∈ x.sched.queued, id ∈ L)
    {rows : List (List (List ℤ))} {logprobs : List (List (List ℚ))}
    (hpass : x.stepPasses W D P rows logprobs = true) :
    J (x.step rows logprobs).sched ∧ ∀ id ∈ (x.step rows logprobs).sched.queued, id ∈ L := by
  unfold EngineState.stepPasses at hpass
  rw [Bool.and_eq_true] at hpass
  obtain ⟨hsched, hpost⟩ := hpass
  obtain ⟨h₁, hq₁, hlisted⟩ := hJ.schedule h hqueued hsched
  unfold EngineState.step EngineState.report
  cases hs : x.sched.schedule with
  | mk o s =>
    rw [hs] at h₁ hq₁ hlisted hpost
    cases o with
    | error e => exact ⟨h₁, hq₁⟩
    | ok r =>
      dsimp only at h₁ hq₁ hlisted hpost ⊢
      -- the swaps complete before the batch runs, and its rows come back after
      have hswaps : SwapFrame s (s.completeSwaps r) :=
        (cacheCompleteHostSwapOuts_frame s _).trans (cacheCompleteHostSwapIns_frame _ _)
      have h₂ := hJ.swaps s r h₁
      have hq₂ : ∀ id ∈ (s.completeSwaps r).queued, id ∈ L :=
        fun id hid => hq₁ id (hswaps.toSameQueues.queued ▸ hid)
      have hran : J ((s.completeSwaps r).runScheduled r rows logprobs) ∧
          ∀ id ∈ ((s.completeSwaps r).runScheduled r rows logprobs).queued, id ∈ L := by
        unfold runScheduled
        split
        case isTrue => exact ⟨h₂, hq₂⟩
        case isFalse hkv =>
          have hrun := (Bool.or_eq_true_iff.1 hpost).resolve_left hkv
          set s₀ := s.completeSwaps r
          have hstart : J (s₀.postprocessStart r.filteredDpGroupSeqIds) := hJ.frame s₀ _ rfl rfl rfl h₂
          have hqstart : ∀ id ∈ (s₀.postprocessStart r.filteredDpGroupSeqIds).queued, id ∈ L := by
            rintro id (hid | hid | ⟨d, hid⟩ | hid)
            · exact hq₂ id (.inl hid)
            · exact hq₂ id (.inr (.inl hid))
            · exact hq₂ id (mem_queued_running (List.mem_of_mem_filter hid))
            · exact hq₂ id (.inr (.inr (.inr hid)))
          have hrule := postprocessImpl_rule (P := P) (H := fun id => id ∈ L ∨ id ∈ s₀.dummySeqIds)
            (I := fun s' => (J s' ∧ ∀ id ∈ s'.queued, id ∈ L) ∧ s'.dummySeqIds = s₀.dummySeqIds)
            (fun s' id d row logprobs hI hH hP => ?_)
              (fun (ids : List ℕ) (hids : ids ∈ r.filteredDpGroupSeqIds) id hid => ?_)
            hrun ⟨⟨hstart, hqstart⟩, rfl⟩
          · exact hrule.1
          · obtain ⟨⟨hJ', hq'⟩, hdummies⟩ := hI
            have hf := s'.postprocessSeq_frame d id row logprobs
            by_cases hdummy : id ∈ s'.dummySeqIds
            · unfold postprocessSeq
              rw [if_pos hdummy]
              exact ⟨⟨hJ', hq'⟩, hdummies⟩
            · have hlive : id ∈ L := hH.resolve_right (hdummies ▸ hdummy)
              refine ⟨⟨hJ.post s' id d row logprobs hJ' hlive hdummy hP, fun id' hid' => ?_⟩,
                hf.dummySeqIds.trans hdummies⟩
              rcases s'.queued_postprocessSeq d id row logprobs hid' with rfl | hid'
              · exact hlive
              · exact hq' id' hid'
          · have hmem := schedule_filtered hs (List.mem_flatten.2 ⟨ids, hids, hid⟩)
            exact (hlisted r rfl id hmem).imp_right fun hdummy => hswaps.dummySeqIds ▸ hdummy
      have hf := recordCompleteStep_frame ((s.completeSwaps r).runScheduled r rows logprobs) r.dpSeqIds x.trackRunning
        x.previousRunning
      exact ⟨hJ.report _ r.dpSeqIds x.trackRunning x.previousRunning hran.1,
        fun id hid => hran.2 id (hf.toSameQueues.queued ▸ hid)⟩

end StepRule

/-! ## Runs of the engine -/

/-- Every engine step passes its tests. -/
def EngineState.passGuard (W : PrefillState.RankTest) (D : DecodeTest) (P : PostTest) :
    EngineState → EngineOp → Bool
  | x, .step rows logprobs => x.stepPasses W D P rows logprobs
  | _, _ => true

/-- `J` is kept by everything that happens to an engine; its first argument are the ids added and not aborted since. -/
structure EngineRule (W : PrefillState.RankTest) (D : DecodeTest) (P : PostTest) (config : SchedulerConfig)
    (J : Finset ℕ → Scheduler → Prop) : Prop where
  config_eq : ∀ L s, J L s → s.config = config
  init : J ∅ (Scheduler.new config)
  step : ∀ L, (∀ id ∈ L, (Scheduler.new config).isReservedId id = false) → StepRule W D P L (J L)
  add : ∀ L s seq, seq.status ≠ .finished → ¬ (seq.seqId ∈ L ∧ s.unfinished seq.seqId = true) →
    J L s → J (insert seq.seqId L) (s.addSequence seq)
  abort : ∀ L s seqId, (s.abortImpl seqId).1 = true → J L s → J (L.erase seqId) (s.abortImpl seqId).2
  free : ∀ L s seqId, (s.toBeMigrated seqId).isSome = true → J L s → J L (s.freeToBeMigratedIdsImpl [seqId])
  toggle : ∀ L s enabled, J L s → J L (s.setPrefixCachingEnabled enabled)

/-- What holds along a run besides `J`: only live ids are queued, and no live id is reserved. -/
structure EngineInv (config : SchedulerConfig) (J : Finset ℕ → Scheduler → Prop) (x : EngineState) : Prop where
  holds : J x.live x.sched
  queued : ∀ id ∈ x.sched.queued, id ∈ x.live
  fresh : ∀ id ∈ x.live, (Scheduler.new config).isReservedId id = false

omit [Xxh3] in
theorem Scheduler.Added.queued {seq : Sequence} {s s' : Scheduler} (h : Added seq s s') :
    s'.queued ⊆ insert seq.seqId s.queued := by
  have hadd : ∀ {l : List ℕ} {id : ℕ}, id ∈ l ++ [seq.seqId] → id = seq.seqId ∨ id ∈ l := fun hid =>
    (List.mem_append.1 hid).symm.imp_left List.mem_singleton.1
  rintro id (hid | hid | ⟨d, hid⟩ | ⟨d, hid⟩)
  · rw [h.waiting] at hid
    split at hid
    case isTrue => exact .inr (.inl hid)
    case isFalse => exact (hadd hid).imp_right .inl
  · rw [h.waitingMigration] at hid
    split at hid
    case isTrue => exact (hadd hid).imp_right fun hid => .inr (.inl hid)
    case isFalse => exact .inr (.inr (.inl hid))
  · exact .inr (mem_queued_running (h.running ▸ hid))
  · exact .inr (mem_queued_prefilling (h.prefilling ▸ hid))

omit [Xxh3] in
theorem Scheduler.Aborted.queued {seqId : ℕ} {s s' : Scheduler} (h : Aborted seqId s s') :
    ∀ id ∈ s'.queued, id ∈ s.queued ∧ id ≠ seqId := by
  have hkeep : ∀ {l : List ℕ} {id : ℕ}, id ∈ l.filter (fun id => decide (id ≠ seqId)) →
    id ∈ l ∧ id ≠ seqId := fun hid => by
    simpa using hid
  rintro id (hid | hid | ⟨d, hid⟩ | ⟨d, hid⟩)
  · exact (hkeep (h.waiting ▸ hid)).imp_left .inl
  · exact (hkeep (h.waitingMigration ▸ hid)).imp_left fun hid => .inr (.inl hid)
  · exact (hkeep (h.running d ▸ hid)).imp_left mem_queued_running
  · exact (hkeep (h.prefilling d ▸ hid)).imp_left mem_queued_prefilling

section runs

variable {W : PrefillState.RankTest} {D : DecodeTest} {P : PostTest} {config : SchedulerConfig}
  {J : Finset ℕ → Scheduler → Prop}

namespace EngineInv

variable {x x' : EngineState}

theorem add (hJ : EngineRule W D P config J) {seq : Sequence} (h : EngineInv config J x)
    (hseq : seq.status ≠ .finished) (hx : x.add seq = some x') : EngineInv config J x' := by
  unfold EngineState.add at hx
  split at hx
  case isTrue => cases hx
  case isFalse hfree =>
    cases hx
    simp only [Bool.or_eq_true, not_or, EngineState.isLive, Bool.and_eq_true, decide_eq_true_eq] at hfree
    refine ⟨hJ.add x.live x.sched seq hseq hfree.1 h.holds, fun id hid => ?_, fun id hid => ?_⟩
    · rcases (addSequence_spec x.sched seq).queued hid with rfl | hid
      · exact Finset.mem_insert_self _ _
      · exact Finset.mem_insert_of_mem (h.queued id hid)
    · rcases Finset.mem_insert.1 hid with rfl | hid
      · have hconfig := hJ.config_eq _ _ h.holds
        rw [@isReservedId_congr x.sched (Scheduler.new config) hconfig.symm]
        simpa using hfree.2
      · exact h.fresh id hid

theorem next (hJ : EngineRule W D P config J) {op : EngineOp} (h : EngineInv config J x)
    (hguard : EngineState.passGuard W D P x op = true) (hstep : EngineState.Step x op x') : EngineInv config J x' := by
  cases hstep with
  | added request hx => exact h.add hJ (by simp [requestToSequence, Sequence.new]) hx
  | handedOver request hover hx =>
    simp only [WireRequestMigrate.handedOver, Bool.and_eq_true, decide_eq_true_eq] at hover
    exact h.add hJ (by simp [migrateRequestToSequence, hover.1.1.1]) hx
  | stepped rows logprobs =>
    obtain ⟨hJ', hqueued⟩ := (hJ.step x.live h.fresh).step h.holds h.queued hguard
    exact ⟨hJ', hqueued, h.fresh⟩
  | aborted seqId =>
    cases hfound : (x.sched.abortImpl seqId).1 with
    | true =>
      refine ⟨by simpa using hJ.abort x.live x.sched seqId hfound h.holds, fun id hid => ?_, fun id hid => ?_⟩
      · obtain ⟨hid, hne⟩ := (abortImpl_found hfound).queued id hid
        simpa using ⟨hne, h.queued id hid⟩
      · exact h.fresh id (Finset.mem_of_mem_erase (by simpa using hid))
    | false =>
      refine ⟨?_, fun id hid => ?_, fun id hid => h.fresh id (by simpa using hid)⟩
      · simpa [abortImpl_not_found hfound] using h.holds
      · simp only [abortImpl_not_found hfound] at hid
        simpa using h.queued id hid
  | @freed seqId hmig =>
    have hfreed := freeToBeMigrated_spec hmig
    refine ⟨hJ.free x.live x.sched seqId hmig h.holds, fun id hid => h.queued id ?_, h.fresh⟩
    unfold Scheduler.queued at hid ⊢
    rwa [hfreed.waiting, hfreed.waitingMigration, hfreed.running, hfreed.prefilling] at hid
  | toggled enabled => exact ⟨hJ.toggle x.live x.sched enabled h.holds, h.queued, h.fresh⟩

end EngineInv

/-- **Invariant rule of the engine**: `J` holds along every run whose steps pass their tests. -/
theorem EngineRule.invariant (hJ : EngineRule W D P config J) :
    Transition.Invariant (engineSystem config) (EngineState.passGuard W D P) (EngineInv config J) where
  initial x hx := by
    cases hx
    refine ⟨hJ.init, fun id hid => ?_, fun id hid => by simp [EngineState.init] at hid⟩
    rcases hid with hid | hid | ⟨d, hid⟩ | ⟨d, hid⟩ <;> cases hid
  next x op x' h hguard hx := h.next hJ hguard (EngineState.step_of_next hx)

/-- An invariant without tests holds in every reachable state. -/
theorem EngineRule.holds (hJ : EngineRule (fun _ _ _ => true) (fun _ _ _ => true) (fun _ _ => true) config J)
    {x : EngineState} (hx : Transition.Reachable (engineSystem config) Transition.always x) : EngineInv config J x := by
  refine hJ.invariant.holds (hx.mono fun x op _ => ?_)
  cases op with
  | step rows logprobs => exact x.stepPasses_true rows logprobs
  | _ => rfl

end runs

end NanoEngine
