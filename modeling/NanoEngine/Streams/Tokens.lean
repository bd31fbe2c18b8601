import NanoEngine.Engine.Ops

/-!
# NanoEngine.Streams.Tokens — a `schedule` call never touches a token

`KeepsStreams s s'`: every sequence with an id of its own (not one reserved for dummies) keeps its tokens and does not
end, and the record of the last step is unchanged.  This holds whether `schedule` succeeds or fails.
-/

namespace NanoEngine

open PrefillState

namespace Sequence

/-- The sequence is terminal for this engine: finished, or handed over to a decode engine. -/
def hasEnded (a : Sequence) : Bool := decide (a.status = .finished) || decide (a.status = .toBeMigrated)

/-- The tokens are unchanged and the sequence does not end. -/
structure KeepsStream (a b : Sequence) : Prop extends KeepsTokens a b where
  ended : b.hasEnded = true → a.hasEnded = true

theorem KeepsStream.refl (a : Sequence) : KeepsStream a a := ⟨.refl a, id⟩

theorem KeepsStream.trans {a b c : Sequence} (h : KeepsStream a b) (k : KeepsStream b c) : KeepsStream a c :=
  ⟨h.toKeepsTokens.trans k.toKeepsTokens, fun hc => h.ended (k.ended hc)⟩

theorem hasEnded_congr {a b : Sequence} (h : b.status = a.status) : b.hasEnded = a.hasEnded := by
  unfold hasEnded
  rw [h]

theorem KeepsProgress.keepsStream {a b : Sequence} (h : KeepsProgress a b) : KeepsStream a b :=
  ⟨h.keepsTokens, fun hb => hasEnded_congr h.status ▸ hb⟩

theorem RecordsCached.keepsStream {a b : Sequence} (h : RecordsCached a b) : KeepsStream a b := by
  obtain ⟨cached, offset, rfl⟩ := h
  exact ⟨⟨rfl, rfl, rfl, rfl, rfl, rfl, rfl⟩, id⟩

theorem KeepsTokens.keepsStream {a b : Sequence} (h : KeepsTokens a b) (hb : b.hasEnded = false) : KeepsStream a b :=
  ⟨h, fun hended => by rw [hb] at hended; cases hended⟩

end Sequence

namespace Scheduler

/-- No stream is lost or changed: every sequence keeps its tokens, and the lists of the last step stay. -/
structure KeepsStreams (s s' : Scheduler) : Prop where
  config : s'.config = s.config
  lastStepTokenIds : s'.lastStepTokenIds = s.lastStepTokenIds
  migrating : ∀ id, (s'.toBeMigrated id).isSome = true → (s.toBeMigrated id).isSome = true
  dummies : ∀ id ∈ s'.dummySeqIds, id ∈ s.dummySeqIds ∨ s.isReservedId id = true
  missing : ∀ id, s.isReservedId id = false → s.seqTable id = none → s'.seqTable id = none
  entry : ∀ id, s.isReservedId id = false → ∀ a, s.seqTable id = some a →
    ∃ b, s'.seqTable id = some b ∧ Sequence.KeepsStream a b
  old : ∀ id b, s'.seqTable id = some b →
    (∃ a, s.seqTable id = some a ∧ Sequence.KeepsStream a b) ∨ b.visionSlots = []

variable {s s' s'' : Scheduler} {seqId : ℕ}

theorem KeepsStreams.refl (s : Scheduler) : KeepsStreams s s :=
  ⟨rfl, rfl, fun _ h => h, fun _ h => .inl h, fun _ _ h => h, fun _ _ a ha => ⟨a, ha, .refl a⟩, fun _ b hb =>
    .inl ⟨b, hb, .refl b⟩⟩

theorem KeepsStreams.trans (h : KeepsStreams s s') (k : KeepsStreams s' s'') : KeepsStreams s s'' where
  config := k.config.trans h.config
  lastStepTokenIds := k.lastStepTokenIds.trans h.lastStepTokenIds
  migrating := fun id hid => h.migrating id (k.migrating id hid)
  dummies := fun id hid => by
    rcases k.dummies id hid with hid | hid
    · exact h.dummies id hid
    · exact .inr (isReservedId_congr h.config id ▸ hid)
  missing := fun id hid hn => k.missing id (by rwa [isReservedId_congr h.config]) (h.missing id hid hn)
  entry := fun id hid a ha => by
    obtain ⟨b, hb, hab⟩ := h.entry id hid a ha
    obtain ⟨c, hc, hbc⟩ := k.entry id (by rwa [isReservedId_congr h.config]) b hb
    exact ⟨c, hc, hab.trans hbc⟩
  old := fun id c hc => by
    rcases k.old id c hc with ⟨b, hb, hbc⟩ | hnil
    · rcases h.old id b hb with ⟨a, ha, hab⟩ | hnil
      · exact .inl ⟨a, ha, hab.trans hbc⟩
      · exact .inr (hbc.visionSlots.trans hnil)
    · exact .inr hnil

/-- The same ids are known, and their entries are related. -/
theorem TableRel.old {R : Sequence → Sequence → Prop} (h : TableRel R s s')
    (hR : ∀ a b, R a b → a.KeepsStream b) (id : ℕ)
    (b : Sequence) (hb : s'.seqTable id = some b) :
    (∃ a, s.seqTable id = some a ∧ Sequence.KeepsStream a b) ∨ b.visionSlots = [] := by
  cases ha : s.seqTable id with
  | none =>
    rw [h.missing id ha] at hb
    cases hb
  | some a =>
    obtain ⟨c, hc, hac⟩ := h.entry id a ha
    obtain rfl := Option.some.inj (hc.symm.trans hb)
    exact .inl ⟨a, rfl, hR a c hac⟩

/-- An operation on one sequence keeps the streams when it keeps the stream of that sequence. -/
theorem Frame.keepsStreams {R : Sequence → Sequence → Prop} (hR : ∀ a b, R a b → a.KeepsStream b)
    (h : Frame R seqId s s') : KeepsStreams s s' where
  config := h.config
  lastStepTokenIds := h.lastStepTokenIds
  migrating := fun id hid => h.toBeMigrated ▸ hid
  dummies := fun id hid => .inl (h.dummySeqIds ▸ hid)
  missing := fun id _ hn => by
    by_cases hid : id = seqId
    · subst hid
      exact h.missing hn
    · rwa [h.others id hid]
  entry := fun id _ a ha => by
    by_cases hid : id = seqId
    · subst hid
      obtain ⟨b, hb, hab⟩ := h.entry a ha
      exact ⟨b, hb, hR a b hab⟩
    · exact ⟨a, by rwa [h.others id hid], .refl a⟩
  old := by
    have ht : TableRel Sequence.KeepsStream s s' := (h.mono hR).table Sequence.KeepsStream.refl
    exact ht.old fun _ _ hab => hab

theorem SwapFrame.keepsStreams (h : SwapFrame s s') : KeepsStreams s s' where
  config := h.config
  lastStepTokenIds := h.lastStepTokenIds
  migrating := fun id hid => h.toBeMigrated ▸ hid
  dummies := fun id hid => .inl (h.dummySeqIds ▸ hid)
  missing := fun id _ hn => h.table.missing id hn
  entry := fun id _ a ha => by
    obtain ⟨b, hb, hab⟩ := h.table.entry id a ha
    exact ⟨b, hb, hab.keepsStream⟩
  old := h.table.old fun _ _ hab => hab.keepsStream

/-- Only queues, counters and the cache differ. -/
theorem KeepsStreams.of_table (hc : s'.config = s.config) (ht : s'.seqTable = s.seqTable)
    (hl : s'.lastStepTokenIds = s.lastStepTokenIds) (hd : s'.dummySeqIds = s.dummySeqIds)
    (hm : ∀ id, (s'.toBeMigrated id).isSome = true → (s.toBeMigrated id).isSome = true) : KeepsStreams s s' :=
  ⟨hc, hl, hm, fun _ h => .inl (hd ▸ h), fun _ _ h => ht ▸ h, fun _ _ a ha => ⟨a, ht ▸ ha, .refl a⟩,
    fun _ b hb => .inl ⟨b, ht ▸ hb, .refl b⟩⟩

variable [Xxh3]

/-- A preempted sequence keeps what it has produced. -/
theorem preemptImpl_keepsStreams (s : Scheduler) (d v : ℕ) : KeepsStreams s (s.preemptImpl d v) := by
  have hp := preemptImpl_spec s d v
  have ht : TableRel Sequence.KeepsStream s (s.preemptImpl d v) := by
    refine ⟨fun id hn => ?_, fun id a ha => ?_⟩
    · by_cases hid : id = v
      · subst hid
        exact hp.missing hn
      · rwa [hp.others id hid]
    · by_cases hid : id = v
      · subst hid
        obtain ⟨b, hb, hab⟩ := hp.entry a ha
        exact ⟨b, hb, hab.toKeepsTokens.keepsStream (by simp [Sequence.hasEnded, hab.status])⟩
      · exact ⟨a, by rwa [hp.others id hid], .refl a⟩
  exact ⟨hp.config, hp.lastStepTokenIds, fun id hid => hp.toBeMigrated ▸ hid,
    fun id hid => .inl (hp.dummySeqIds ▸ hid), fun id _ hn => ht.missing id hn,
    fun id _ a ha => ht.entry id a ha, ht.old fun _ _ hab => hab⟩

/-- Admission moves a sequence and adds no token to it … -/
theorem tryAllocatePrefill_keepsStreams (s : Scheduler) (seqId d : ℕ) (batchSeqs batchTokens : ℕ → ℤ) :
    KeepsStreams s (s.tryAllocatePrefill seqId d batchSeqs batchTokens).2 := by
  have hprep := (prepareAdmission_frame s seqId d batchSeqs batchTokens).keepsStreams
    fun _ _ h => h.keepsStream
  unfold tryAllocatePrefill
  split
  case h_1 heq =>
    rw [heq] at hprep
    exact hprep
  case h_2 a s₁ heq =>
    rw [heq] at hprep
    have hres := (reserveAdmission_frame s₁ seqId d a).keepsStreams fun _ _ h =>
      h.toKeepsTokens.keepsStream (by simp [Sequence.hasEnded, h.status])
    split
    case h_1 e s₂ heq₂ =>
      rw [heq₂] at hres
      have hcancel := (cancelAdmission_frame s₂ seqId).keepsStreams fun _ _ h =>
        h.1.toKeepsTokens.keepsStream (by simp [Sequence.hasEnded, h.2])
      unfold preemptOneForAllocation
      cases (s₂.cancelAdmission seqId).preemptVictim d seqId with
      | none => exact hprep.trans (hres.trans hcancel)
      | some victim => exact hprep.trans (hres.trans (hcancel.trans (preemptImpl_keepsStreams _ d victim)))
    case h_2 s₂ heq₂ =>
      rw [heq₂] at hres
      have hfin := (finishAdmission_frame s₂ seqId a.master a.fullLen a.cached).keepsStreams
        fun _ _ h => h.toKeepsHost.toKeepsProgress.keepsStream
      split
      case h_1 heq₃ =>
        rw [heq₃] at hfin
        exact hprep.trans (hres.trans hfin)
      case h_2 heq₃ =>
        rw [heq₃] at hfin
        exact hprep.trans (hres.trans hfin)

theorem cacheTryRestoreHostBlocks_keepsStreams (s : Scheduler) (seqId d : ℕ) :
    KeepsStreams s (s.cacheTryRestoreHostBlocks seqId d).2 := by
  rcases h : s.cacheTryRestoreHostBlocks seqId d with ⟨e | b, s'⟩
  · unfold cacheTryRestoreHostBlocks at h
    split at h
    · cases h
    · dsimp only at h
      split at h
      · cases h
      · split at h
        · cases h
        · split at h
          · cases h
          · split at h
            · cases h
              exact .of_table rfl rfl rfl rfl fun _ h => h
            · cases h
  · cases b with
    | false =>
      obtain rfl := cacheTryRestoreHostBlocks_false h
      exact .refl _
    | true => exact (cacheTryRestoreHostBlocks_true h).keepsStreams fun _ _ hab =>
      hab.toKeepsTokens.keepsStream (by simp [Sequence.hasEnded, hab.status])

omit [Xxh3] in
theorem markScheduled_keepsStreams (s : Scheduler) (seqId : ℕ) : KeepsStreams s (s.markScheduled seqId) := by
  have hf : Frame Sequence.KeepsStream seqId s (s.markScheduled seqId) :=
    Frame.of_updateSeq _ _ fun _ => ⟨⟨rfl, rfl, rfl, rfl, rfl, rfl, rfl⟩, id⟩
  exact hf.keepsStreams fun _ _ h => h

end Scheduler

/-! ## The prefill pass -/

namespace PrefillState

open Scheduler

theorem join_keepsStreams (st : PrefillState) (d g seqId : ℕ) (newTokens : ℤ) :
    KeepsStreams st.sched (st.join d g seqId newTokens).sched := by
  have hpush : KeepsStreams st.sched (st.sched.pushRunning d seqId) := .of_table rfl rfl rfl rfl fun _ h => h
  exact hpush.trans (markScheduled_keepsStreams _ seqId)

theorem popQueue_keepsStreams (st : PrefillState) : KeepsStreams st.sched st.popQueue.sched := by
  refine .of_table (config_popQueue st) (seqTable_popQueue st) ?_ (dummySeqIds_popQueue st) fun id hid => ?_
  · unfold popQueue withSched
    by_cases hmode : st.sched.config.mode = .decode <;> simp [hmode]
  · unfold popQueue withSched at hid
    split at hid <;> exact hid

theorem continueSeq_keepsStreams (d : ℕ) (st : PrefillState) (seqId : ℕ) :
    KeepsStreams st.sched (continueSeq d st seqId).sched := by
  unfold continueSeq
  split
  · exact .refl _
  · dsimp only
    split
    · exact .of_table rfl rfl rfl rfl fun _ h => h
    · have hf : ∀ newTokens dispatch, Frame Sequence.KeepsStream seqId st.sched
          (st.sched.updateSeq seqId (fun seq => seq.continueWith newTokens dispatch)) :=
        fun _ _ => Frame.of_updateSeq _ _ fun _ => ⟨⟨rfl, rfl, rfl, rfl, rfl, rfl, rfl⟩, id⟩
      exact ((hf _ _).keepsStreams fun _ _ h => h).trans (join_keepsStreams (st.withSched _) _ _ _ _)

theorem continueAll_keepsStreams (st : PrefillState) : KeepsStreams st.sched st.continueAll.sched := by
  have hids : ∀ (d : ℕ) (ids : List ℕ) (st : PrefillState), KeepsStreams st.sched
    (ids.foldl (continueSeq d) st).sched := by
    intro d ids
    induction ids with
    | nil => intro st; exact .refl _
    | cons seqId ids ih => intro st; exact (continueSeq_keepsStreams d st seqId).trans (ih _)
  have hranks : ∀ (ranks : List ℕ) (st : PrefillState), KeepsStreams st.sched
    (ranks.foldl continueRank st).sched := by
    intro ranks
    induction ranks with
    | nil => intro st; exact .refl _
    | cons d ranks ih =>
      intro st
      have htake : KeepsStreams st.sched (st.takePrefilling d).sched := .of_table rfl rfl rfl rfl fun _ h => h
      exact (htake.trans (hids d _ _)).trans (ih _)
  exact hranks _ st

variable [Xxh3]

theorem tryCandidates_keepsStreams (seqId : ℕ) (ranks : List ℕ) (st : PrefillState) :
    KeepsStreams st.sched (tryCandidates seqId ranks st).2.sched := by
  induction ranks generalizing st with
  | nil => exact .refl _
  | cons d ranks ih =>
    have hnote : ∀ st : PrefillState, KeepsStreams st.sched (st.notePlaced d seqId).sched :=
      fun _ => .of_table rfl rfl rfl rfl fun _ h => h
    unfold tryCandidates
    split
    · have hres := cacheTryRestoreHostBlocks_keepsStreams st.sched seqId d
      split
      case h_1 e s heq =>
        rw [heq] at hres
        exact hres
      case h_2 s heq =>
        rw [heq] at hres
        have hpush : KeepsStreams (st.withSched s).popQueue.sched
          ((st.withSched s).popQueue.sched.pushRunning d seqId) :=
          .of_table rfl rfl rfl rfl fun _ h => h
        exact hres.trans ((popQueue_keepsStreams (st.withSched s)).trans (hpush.trans
          (hnote ((st.withSched s).popQueue.withSched _))))
      case h_3 s heq =>
        rw [heq] at hres
        exact hres.trans (ih (st.withSched s))
    · have htry := tryAllocatePrefill_keepsStreams st.sched seqId d (st.numSeqs d) (st.numTokens d)
      split
      case h_1 e s heq =>
        rw [heq] at htry
        exact htry
      case h_2 newTokens s heq =>
        rw [heq] at htry
        exact htry.trans ((popQueue_keepsStreams (st.withSched s)).trans
          ((join_keepsStreams _ _ _ _ _).trans (hnote _)))
      case h_3 s heq =>
        rw [heq] at htry
        exact htry.trans (ih (st.withSched s))

/-- … nor does the loop over the waiting queue … -/
theorem admitLoop_keepsStreams (fuel : ℕ) (st : PrefillState) :
    KeepsStreams st.sched (admitLoop fuel st).2.sched := by
  induction fuel generalizing st with
  | zero => exact .refl _
  | succ fuel ih =>
    unfold admitLoop
    split
    · exact .refl _
    case h_2 seqId hhead =>
      have hroute := (routeCandidates_frame st.sched seqId 0).swapFrame.keepsStreams
      have htry := tryCandidates_keepsStreams seqId (st.sched.routeCandidates seqId).1
        (st.withSched (st.sched.routeCandidates seqId).2)
      dsimp only
      split
      case h_1 e st₁ heq =>
        rw [heq] at htry
        exact hroute.trans htry
      case h_2 st₁ heq =>
        rw [heq] at htry
        exact hroute.trans htry
      case h_3 st₁ heq =>
        rw [heq] at htry
        exact hroute.trans (htry.trans (ih st₁))

end PrefillState

/-! ## The decode pass -/

namespace Scheduler

variable [Xxh3]

theorem decodeSeq_keepsStreams (d : ℕ) (st : DecodeState) (seqId : ℕ) :
    KeepsStreams st.sched (decodeSeq d st seqId).sched := by
  have hgrow := (cacheEnsureBlocksForSeq_frame st.sched seqId false).cacheFrame.swapFrame.keepsStreams
  unfold decodeSeq
  dsimp only
  split
  · exact .refl _
  · split
    case h_1 e s heq =>
      rw [heq] at hgrow
      exact hgrow.trans (preemptImpl_keepsStreams s d seqId)
    case h_2 s heq =>
      rw [heq] at hgrow
      exact hgrow.trans (markScheduled_keepsStreams s seqId)

omit [Xxh3] in
theorem EntersDummies.keepsStreams {s s' : Scheduler} (h : EntersDummies s s') : KeepsStreams s s' where
  config := h.config
  lastStepTokenIds := h.lastStepTokenIds
  migrating := fun id hid => h.toBeMigrated ▸ hid
  dummies := h.reserved
  missing := fun id hid hn => by rwa [h.others id hid]
  entry := fun id hid a ha => ⟨a, by rwa [h.others id hid], .refl a⟩
  old := fun id b hb => (h.entry id b hb).imp (fun ha => ⟨b, ha, .refl b⟩) fun hdummy => hdummy.visionSlots

/-- … nor a decode pass with its dummies. -/
theorem decodeRanks_keepsStreams (ranks : List ℕ) (s : Scheduler) (hranks : ∀ d ∈ ranks, d < s.dp) :
    KeepsStreams s (decodeRanks ranks s).2 := by
  induction ranks generalizing s with
  | nil => exact .refl _
  | cons d ranks ih =>
    have hseqs : ∀ (ids : List ℕ) (st : DecodeState), KeepsStreams st.sched (ids.foldl (decodeSeq d) st).sched := by
      intro ids
      induction ids with
      | nil => intro st; exact .refl _
      | cons seqId ids ih => intro st; exact (decodeSeq_keepsStreams d st seqId).trans (ih _)
    have hrank : KeepsStreams s (s.decodeRank d).2 := by
      have hstart : KeepsStreams s (s.decodeStart d).sched := .of_table rfl rfl rfl rfl fun _ h => h
      have hloop := hstart.trans (hseqs (s.running d) (s.decodeStart d))
      unfold decodeRank
      dsimp only
      generalize (s.running d).foldl (decodeSeq d) (s.decodeStart d) = st at hloop
      have hset : KeepsStreams st.sched { st.sched with running := Function.update st.sched.running d st.skipped } :=
        .of_table rfl rfl rfl rfl fun _ h => h
      refine (hloop.trans hset).trans (decodeDummies_enters _ _ ?_ fun g hg => List.mem_range.1 hg).1.keepsStreams
      have := hranks d List.mem_cons_self
      unfold Scheduler.dp at *
      rwa [(hloop.trans hset).config]
    refine hrank.trans (ih _ fun d' hd' => ?_)
    have := hranks d' (List.mem_cons_of_mem _ hd')
    unfold Scheduler.dp at *
    rwa [hrank.config]

/-- **A `schedule` call keeps the tokens of every sequence**, also when it fails. -/
theorem schedule_keepsStreams (s : Scheduler) : KeepsStreams s s.schedule.2 := by
  have hstart : KeepsStreams s { s with currentStep := s.currentStep + 1 } := .of_table rfl rfl rfl rfl fun _ h => h
  have hcont := hstart.trans (PrefillState.continueAll_keepsStreams
    (PrefillState.init { s with currentStep := s.currentStep + 1 }))
  have hloop := hcont.trans (PrefillState.admitLoop_keepsStreams
    (PrefillState.init { s with currentStep := s.currentStep + 1 }).continueAll.admissionFuel _)
  have hpre : KeepsStreams s ({ s with currentStep := s.currentStep + 1 }.schedulePrefill).2 := by
    unfold schedulePrefill
    dsimp only
    split
    case h_1 heq => rw [heq] at hloop; exact hloop
    case h_2 heq => rw [heq] at hloop; exact hloop
  unfold schedule
  split
  case h_1 heq => rw [heq] at hpre; exact hpre
  case h_2 prefill s₁ heq =>
    rw [heq] at hpre
    split
    · exact hpre
    · exact hpre.trans (decodeRanks_keepsStreams _ s₁ fun d hd => List.mem_range.1 hd)

end Scheduler

end NanoEngine
