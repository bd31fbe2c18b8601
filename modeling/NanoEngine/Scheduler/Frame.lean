import Mathlib.Data.Option.Basic
import NanoEngine.Scheduler.Schedule

/-!
# NanoEngine.Scheduler.Frame — what the cache operations leave alone

`Frame R seqId s s'`: from `s` to `s'` only the cache, the cursor of the router and the table entry of `seqId` changed,
the entry as `R` says.

* `KeepsProgress`: the entry keeps its tokens, its counters, its status and its time stamps.
* `KeepsTokens`: the entry keeps its tokens, its prompt and its sampling parameters.

`TableRel R s s'`: the same sequences are known in `s` and `s'`, and `R` relates their entries.
-/

namespace NanoEngine

namespace Sequence

/-- Only where the sequence lies in the caches changed. -/
structure KeepsProgress (a b : Sequence) : Prop where
  seqId : b.seqId = a.seqId
  status : b.status = a.status
  tokenIds : b.tokenIds = a.tokenIds
  lastToken : b.lastToken = a.lastToken
  numTokens : b.numTokens = a.numTokens
  numPromptTokens : b.numPromptTokens = a.numPromptTokens
  numCheckpointedTokens : b.numCheckpointedTokens = a.numCheckpointedTokens
  numCachedTokens : b.numCachedTokens = a.numCachedTokens
  prefillStartOffset : b.prefillStartOffset = a.prefillStartOffset
  samplingParams : b.samplingParams = a.samplingParams
  lastScheduledStep : b.lastScheduledStep = a.lastScheduledStep
  completionLogprobs : b.completionLogprobs = a.completionLogprobs
  visionSlots : b.visionSlots = a.visionSlots

theorem KeepsProgress.refl (a : Sequence) :
    KeepsProgress a a := ⟨rfl, rfl, rfl, rfl, rfl, rfl, rfl, rfl, rfl, rfl, rfl, rfl, rfl⟩

theorem KeepsProgress.trans {a b c : Sequence} (h : KeepsProgress a b) (k : KeepsProgress b c) :
    KeepsProgress a c where
  seqId := k.seqId.trans h.seqId
  status := k.status.trans h.status
  tokenIds := k.tokenIds.trans h.tokenIds
  lastToken := k.lastToken.trans h.lastToken
  numTokens := k.numTokens.trans h.numTokens
  numPromptTokens := k.numPromptTokens.trans h.numPromptTokens
  numCheckpointedTokens := k.numCheckpointedTokens.trans h.numCheckpointedTokens
  numCachedTokens := k.numCachedTokens.trans h.numCachedTokens
  prefillStartOffset := k.prefillStartOffset.trans h.prefillStartOffset
  samplingParams := k.samplingParams.trans h.samplingParams
  lastScheduledStep := k.lastScheduledStep.trans h.lastScheduledStep
  completionLogprobs := k.completionLogprobs.trans h.completionLogprobs
  visionSlots := k.visionSlots.trans h.visionSlots

/-- Progress and host copy are unchanged: only what lies in HBM moved. -/
structure KeepsHost (a b : Sequence) : Prop extends KeepsProgress a b where
  hostBlockTable : b.hostBlockTable = a.hostBlockTable
  hostBlockTables : b.hostBlockTables = a.hostBlockTables
  lastSwappedOutStep : b.lastSwappedOutStep = a.lastSwappedOutStep

theorem KeepsHost.refl (a : Sequence) : KeepsHost a a := ⟨.refl a, rfl, rfl, rfl⟩

theorem KeepsHost.trans {a b c : Sequence} (h : KeepsHost a b) (k : KeepsHost b c) : KeepsHost a c where
  toKeepsProgress := h.toKeepsProgress.trans k.toKeepsProgress
  hostBlockTable := k.hostBlockTable.trans h.hostBlockTable
  hostBlockTables := k.hostBlockTables.trans h.hostBlockTables
  lastSwappedOutStep := k.lastSwappedOutStep.trans h.lastSwappedOutStep

/-- Also the place in HBM is unchanged: only slots, pages and migration fields moved. -/
structure KeepsPlace (a b : Sequence) : Prop extends KeepsHost a b where
  activeDpIdx : b.activeDpIdx = a.activeDpIdx
  activeGroupId : b.activeGroupId = a.activeGroupId
  activeBlockTable : b.activeBlockTable = a.activeBlockTable

theorem KeepsPlace.refl (a : Sequence) : KeepsPlace a a := ⟨.refl a, rfl, rfl, rfl⟩

theorem KeepsPlace.trans {a b c : Sequence} (h : KeepsPlace a b) (k : KeepsPlace b c) : KeepsPlace a c where
  toKeepsHost := h.toKeepsHost.trans k.toKeepsHost
  activeDpIdx := k.activeDpIdx.trans h.activeDpIdx
  activeGroupId := k.activeGroupId.trans h.activeGroupId
  activeBlockTable := k.activeBlockTable.trans h.activeBlockTable

/-- The tokens and what the request fixed are unchanged. -/
structure KeepsTokens (a b : Sequence) : Prop where
  seqId : b.seqId = a.seqId
  tokenIds : b.tokenIds = a.tokenIds
  lastToken : b.lastToken = a.lastToken
  numPromptTokens : b.numPromptTokens = a.numPromptTokens
  samplingParams : b.samplingParams = a.samplingParams
  completionLogprobs : b.completionLogprobs = a.completionLogprobs
  visionSlots : b.visionSlots = a.visionSlots

theorem KeepsTokens.refl (a : Sequence) : KeepsTokens a a := ⟨rfl, rfl, rfl, rfl, rfl, rfl, rfl⟩

theorem KeepsTokens.trans {a b c : Sequence} (h : KeepsTokens a b) (k : KeepsTokens b c) : KeepsTokens a c where
  seqId := k.seqId.trans h.seqId
  tokenIds := k.tokenIds.trans h.tokenIds
  lastToken := k.lastToken.trans h.lastToken
  numPromptTokens := k.numPromptTokens.trans h.numPromptTokens
  samplingParams := k.samplingParams.trans h.samplingParams
  completionLogprobs := k.completionLogprobs.trans h.completionLogprobs
  visionSlots := k.visionSlots.trans h.visionSlots

theorem KeepsProgress.keepsTokens {a b : Sequence} (h : KeepsProgress a b) : KeepsTokens a b :=
  ⟨h.seqId, h.tokenIds, h.lastToken, h.numPromptTokens, h.samplingParams, h.completionLogprobs, h.visionSlots⟩

/-- The request, the host copy and the marks that only preemption and scheduling move are unchanged. -/
structure KeepsRequest (a b : Sequence) : Prop extends KeepsTokens a b where
  numCheckpointedTokens : b.numCheckpointedTokens = a.numCheckpointedTokens
  lastScheduledStep : b.lastScheduledStep = a.lastScheduledStep
  hostBlockTable : b.hostBlockTable = a.hostBlockTable
  hostBlockTables : b.hostBlockTables = a.hostBlockTables
  lastSwappedOutStep : b.lastSwappedOutStep = a.lastSwappedOutStep

theorem KeepsRequest.refl (a : Sequence) : KeepsRequest a a := ⟨.refl a, rfl, rfl, rfl, rfl, rfl⟩

theorem KeepsRequest.trans {a b c : Sequence} (h : KeepsRequest a b) (k : KeepsRequest b c) : KeepsRequest a c where
  toKeepsTokens := h.toKeepsTokens.trans k.toKeepsTokens
  numCheckpointedTokens := k.numCheckpointedTokens.trans h.numCheckpointedTokens
  lastScheduledStep := k.lastScheduledStep.trans h.lastScheduledStep
  hostBlockTable := k.hostBlockTable.trans h.hostBlockTable
  hostBlockTables := k.hostBlockTables.trans h.hostBlockTables
  lastSwappedOutStep := k.lastSwappedOutStep.trans h.lastSwappedOutStep

theorem KeepsHost.keepsRequest {a b : Sequence} (h : KeepsHost a b) : KeepsRequest a b :=
  ⟨h.keepsTokens, h.numCheckpointedTokens, h.lastScheduledStep, h.hostBlockTable, h.hostBlockTables,
    h.lastSwappedOutStep⟩

/-- Only the answer of the prefix cache was recorded. -/
def RecordsCached (a b : Sequence) : Prop :=
  ∃ cached offset : ℤ, b = { a with numCachedTokens := cached, prefillStartOffset := offset }

theorem RecordsCached.refl (a : Sequence) : RecordsCached a a := ⟨a.numCachedTokens, a.prefillStartOffset, rfl⟩

theorem RecordsCached.keepsRequest {a b : Sequence} (h : RecordsCached a b) : KeepsRequest a b := by
  obtain ⟨cached, offset, rfl⟩ := h
  exact ⟨⟨rfl, rfl, rfl, rfl, rfl, rfl, rfl⟩, rfl, rfl, rfl, rfl, rfl⟩

/-- The one token and the counters of a dummy. -/
structure IsDummy (a : Sequence) (seqId : ℕ) : Prop where
  seqId : a.seqId = seqId
  tokenIds : a.tokenIds = [0]
  numTokens : a.numTokens = 1
  numPromptTokens : a.numPromptTokens = 1
  numCheckpointedTokens : a.numCheckpointedTokens = 1
  hostBlockTable : a.hostBlockTable = []
  visionSlots : a.visionSlots = []

end Sequence

namespace Scheduler

/-- The part of the scheduler that no cache operation touches. -/
structure SameQueues (s s' : Scheduler) : Prop where
  config : s'.config = s.config
  waiting : s'.waiting = s.waiting
  waitingMigration : s'.waitingMigration = s.waitingMigration
  running : s'.running = s.running
  prefilling : s'.prefilling = s.prefilling
  toBeMigrated : s'.toBeMigrated = s.toBeMigrated
  dummySeqIds : s'.dummySeqIds = s.dummySeqIds
  currentStep : s'.currentStep = s.currentStep
  lastStepTokenIds : s'.lastStepTokenIds = s.lastStepTokenIds

theorem SameQueues.refl (s : Scheduler) : SameQueues s s := ⟨rfl, rfl, rfl, rfl, rfl, rfl, rfl, rfl, rfl⟩

theorem SameQueues.trans {s s' s'' : Scheduler} (h : SameQueues s s') (k : SameQueues s' s'') : SameQueues s s'' where
  config := k.config.trans h.config
  waiting := k.waiting.trans h.waiting
  waitingMigration := k.waitingMigration.trans h.waitingMigration
  running := k.running.trans h.running
  prefilling := k.prefilling.trans h.prefilling
  toBeMigrated := k.toBeMigrated.trans h.toBeMigrated
  dummySeqIds := k.dummySeqIds.trans h.dummySeqIds
  currentStep := k.currentStep.trans h.currentStep
  lastStepTokenIds := k.lastStepTokenIds.trans h.lastStepTokenIds

theorem mem_pushRunning {s : Scheduler} {d v d' id : ℕ} :
    id ∈ (s.pushRunning d v).running d' ↔ id ∈ s.running d' ∨ (d' = d ∧ id = v) := by
  unfold pushRunning
  by_cases hd : d' = d
  · subst hd
    simp
  · simp [hd]

theorem mem_dropRunning {s : Scheduler} {d v d' id : ℕ} :
    id ∈ (s.dropRunning d v).running d' ↔ id ∈ s.running d' ∧ (d' = d → id ≠ v) := by
  unfold dropRunning
  by_cases hd : d' = d
  · subst hd
    simp
  · simp [hd]

/-- Only the cache, the router's cursor and the entry of `seqId` changed, the entry as `R` says. -/
structure Frame (R : Sequence → Sequence → Prop) (seqId : ℕ) (s s' : Scheduler) :
    Prop extends SameQueues s s' where
  others : ∀ id, id ≠ seqId → s'.seqTable id = s.seqTable id
  missing : s.seqTable seqId = none → s'.seqTable seqId = none
  entry : ∀ a, s.seqTable seqId = some a → ∃ b, s'.seqTable seqId = some b ∧ R a b

section frames

variable {R S T : Sequence → Sequence → Prop} {seqId : ℕ} {s s' s'' : Scheduler}

theorem Frame.refl (hR : ∀ a, R a a) (s : Scheduler) : Frame R seqId s s :=
  { SameQueues.refl s with
    others := fun _ _ => rfl
    missing := fun h => h
    entry := fun a ha => ⟨a, ha, hR a⟩ }

/-- Two frames around the same sequence compose as their relations do. -/
theorem Frame.comp (h : Frame R seqId s s') (k : Frame S seqId s' s'') (hRST : ∀ a b c, R a b → S b c → T a c) :
    Frame T seqId s s'' := by
  refine { h.toSameQueues.trans k.toSameQueues with
    others := fun id hid => (k.others id hid).trans (h.others id hid)
    missing := fun hn => k.missing (h.missing hn), entry := fun a ha => ?_ }
  obtain ⟨b, hb, hab⟩ := h.entry a ha
  obtain ⟨c, hc, hbc⟩ := k.entry b hb
  exact ⟨c, hc, hRST a b c hab hbc⟩

theorem Frame.mono (hRS : ∀ a b, R a b → S a b) (h : Frame R seqId s s') : Frame S seqId s s' := by
  refine { h.toSameQueues with others := h.others, missing := h.missing, entry := fun a ha => ?_ }
  obtain ⟨b, hb, hab⟩ := h.entry a ha
  exact ⟨b, hb, hRS a b hab⟩

/-- A change of the cache alone. -/
theorem Frame.of_cache (hR : ∀ a, R a a) (s : Scheduler) (c : CacheState) : Frame R seqId s (s.setCache c) :=
  { SameQueues.refl s with
    others := fun _ _ => rfl
    missing := fun h => h
    entry := fun a ha => ⟨a, ha, hR a⟩ }

theorem Frame.of_setCache_updateSeq (s : Scheduler) (c : CacheState) (f : Sequence → Sequence)
    (hf : ∀ a, R a (f a)) :
    Frame R seqId s ((s.setCache c).updateSeq seqId f) :=
  { SameQueues.refl s with
    others := fun id hid => Function.update_of_ne hid _ _
    missing := fun h => by simp [updateSeq, setCache, h]
    entry := fun a ha => ⟨f a, by simp [updateSeq, setCache, ha], hf a⟩ }

theorem Frame.of_updateSeq (s : Scheduler) (f : Sequence → Sequence) (hf : ∀ a, R a (f a)) :
    Frame R seqId s (s.updateSeq seqId f) :=
  { SameQueues.refl s with
    others := fun id hid => Function.update_of_ne hid _ _
    missing := fun h => by simp [updateSeq, h]
    entry := fun a ha => ⟨f a, by simp [updateSeq, ha], hf a⟩ }

/-- The same sequences are known, and `R` relates their entries. -/
structure TableRel (R : Sequence → Sequence → Prop) (s s' : Scheduler) : Prop where
  missing : ∀ id, s.seqTable id = none → s'.seqTable id = none
  entry : ∀ id a, s.seqTable id = some a → ∃ b, s'.seqTable id = some b ∧ R a b

theorem TableRel.refl (hR : ∀ a, R a a) (s : Scheduler) :
    TableRel R s s := ⟨fun _ h => h, fun _ a ha => ⟨a, ha, hR a⟩⟩

theorem TableRel.trans (hR : ∀ a b c, R a b → R b c → R a c) (h : TableRel R s s') (k : TableRel R s' s'') :
    TableRel R s s'' := by
  refine ⟨fun id hn => k.missing id (h.missing id hn), fun id a ha => ?_⟩
  obtain ⟨b, hb, hab⟩ := h.entry id a ha
  obtain ⟨c, hc, hbc⟩ := k.entry id b hb
  exact ⟨c, hc, hR a b c hab hbc⟩

theorem TableRel.mono (hRS : ∀ a b, R a b → S a b) (h : TableRel R s s') : TableRel S s s' := by
  refine ⟨h.missing, fun id a ha => ?_⟩
  obtain ⟨b, hb, hab⟩ := h.entry id a ha
  exact ⟨b, hb, hRS a b hab⟩

theorem Frame.table (hR : ∀ a, R a a) (h : Frame R seqId s s') : TableRel R s s' := by
  refine ⟨fun id hn => ?_, fun id a ha => ?_⟩
  · by_cases hid : id = seqId
    · subst hid
      exact h.missing hn
    · rw [h.others id hid, hn]
  · by_cases hid : id = seqId
    · subst hid
      exact h.entry a ha
    · exact ⟨a, by rw [h.others id hid, ha], hR a⟩

end frames

/-! ## The cache operations keep the progress of the sequence -/

abbrev CacheFrame (seqId : ℕ) (s s' : Scheduler) : Prop := Frame Sequence.KeepsProgress seqId s s'

section cacheFrames

variable {seqId : ℕ} {s s' s'' : Scheduler}

theorem CacheFrame.refl (s : Scheduler) : CacheFrame seqId s s := Frame.refl Sequence.KeepsProgress.refl s

theorem CacheFrame.trans (h : CacheFrame seqId s s') (k : CacheFrame seqId s' s'') : CacheFrame seqId s s'' :=
  Frame.comp h k fun _ _ _ => Sequence.KeepsProgress.trans

theorem CacheFrame.cache (s : Scheduler) (c : CacheState) : CacheFrame seqId s (s.setCache c) :=
  Frame.of_cache Sequence.KeepsProgress.refl s c

theorem releaseSeq_frame (s : Scheduler) (id : ℕ) : CacheFrame seqId s (s.releaseSeq id) := .cache s _

theorem cachePrepareHostSwapOut_frame [Xxh3] (s : Scheduler) (seqId : ℕ) :
    CacheFrame seqId s (s.cachePrepareHostSwapOut seqId).2 := by
  unfold cachePrepareHostSwapOut
  split_ifs
  · exact .refl s
  · split
    · exact .refl s
    · dsimp only
      split_ifs
      · exact .refl s
      · split
        · exact .cache s _
        · refine CacheFrame.trans (.cache s _) (Frame.of_updateSeq _ _ fun a => ?_)
          exact ⟨rfl, rfl, rfl, rfl, rfl, rfl, rfl, rfl, rfl, rfl, rfl, rfl, rfl⟩

/-! ### Reservations -/

abbrev HostFrame (seqId : ℕ) (s s' : Scheduler) : Prop := Frame Sequence.KeepsHost seqId s s'

theorem HostFrame.refl (s : Scheduler) : HostFrame seqId s s := Frame.refl Sequence.KeepsHost.refl s

theorem HostFrame.trans (h : HostFrame seqId s s') (k : HostFrame seqId s' s'') : HostFrame seqId s s'' :=
  Frame.comp h k fun _ _ _ => Sequence.KeepsHost.trans

theorem HostFrame.cache (s : Scheduler) (c : CacheState) : HostFrame seqId s (s.setCache c) :=
  Frame.of_cache Sequence.KeepsHost.refl s c

theorem Frame.cacheFrame (h : HostFrame seqId s s') : CacheFrame seqId s s' := h.mono fun _ _ k => k.toKeepsProgress

theorem cacheAttachActiveBlocks_frame (s : Scheduler) (seqId dpIdx groupId : ℕ) (blocks : List ℕ) :
    HostFrame seqId s (s.cacheAttachActiveBlocks seqId dpIdx groupId blocks) :=
  Frame.of_updateSeq _ _ fun _ =>
    ⟨⟨rfl, rfl, rfl, rfl, rfl, rfl, rfl, rfl, rfl, rfl, rfl, rfl, rfl⟩, rfl, rfl, rfl⟩

theorem cacheAttachMigrateBlocks_frame (s : Scheduler) (seqId dpIdx groupId : ℕ) (blocks : List ℕ) :
    HostFrame seqId s (s.cacheAttachMigrateBlocks seqId dpIdx groupId blocks) :=
  Frame.of_updateSeq _ _ fun _ =>
    ⟨⟨rfl, rfl, rfl, rfl, rfl, rfl, rfl, rfl, rfl, rfl, rfl, rfl, rfl⟩, rfl, rfl, rfl⟩

theorem cacheAttachBlocks_frame (s : Scheduler) (seqId dpIdx groupId : ℕ) (blocks : List ℕ) (setMigrate : Bool) :
    HostFrame seqId s (s.cacheAttachBlocks seqId dpIdx groupId blocks setMigrate) := by
  have h := cacheAttachActiveBlocks_frame s seqId dpIdx groupId blocks
  unfold cacheAttachBlocks
  split
  · exact h.trans (cacheAttachMigrateBlocks_frame _ _ _ _ _)
  · exact h

variable [Xxh3]

theorem cacheEnsureGroupBlocksWithHostPrefix_frame (s : Scheduler) (seqId dpIdx groupId : ℕ) (tokens : ℤ)
    (setMigrate : Bool) :
    HostFrame seqId s (s.cacheEnsureGroupBlocksWithHostPrefix seqId dpIdx groupId tokens setMigrate).2 := by
  unfold cacheEnsureGroupBlocksWithHostPrefix
  dsimp only
  split
  · exact .cache s _
  · exact (HostFrame.cache s _).trans (cacheAttachBlocks_frame _ _ _ _ _ _)

theorem cacheEnsureGroupBlocks_frame (s : Scheduler) (seqId dpIdx groupId : ℕ) (tokens : ℤ) (setMigrate : Bool) :
    HostFrame seqId s (s.cacheEnsureGroupBlocks seqId dpIdx groupId tokens setMigrate).2 := by
  unfold cacheEnsureGroupBlocks
  dsimp only
  split
  · exact cacheEnsureGroupBlocksWithHostPrefix_frame _ _ _ _ _ _
  · split
    · exact .cache s _
    · exact (HostFrame.cache s _).trans (cacheAttachBlocks_frame _ _ _ _ _ _)

theorem ensureDispatched_frame (seqId dpIdx gid : ℕ) (dispatch : List ℤ) (s : Scheduler) :
    HostFrame seqId s (ensureDispatched seqId dpIdx gid dispatch s).2 := by
  induction dispatch generalizing gid s with
  | nil => exact .refl s
  | cons count dispatch ih =>
    unfold ensureDispatched
    split_ifs
    · have h := cacheEnsureGroupBlocks_frame s seqId dpIdx gid count (decide (s.config.mode ≠ .decode))
      split
      case h_1 heq => rwa [heq] at h
      case h_2 heq =>
        rw [heq] at h
        exact h.trans (ih _ _)
    · exact ih _ _

omit [Xxh3]

/-! ### Slots and pages -/

abbrev SlotFrame (seqId : ℕ) (s s' : Scheduler) : Prop := Frame Sequence.KeepsPlace seqId s s'

theorem SlotFrame.refl (s : Scheduler) : SlotFrame seqId s s := Frame.refl Sequence.KeepsPlace.refl s

theorem SlotFrame.trans (h : SlotFrame seqId s s') (k : SlotFrame seqId s' s'') : SlotFrame seqId s s'' :=
  Frame.comp h k fun _ _ _ => Sequence.KeepsPlace.trans

theorem SlotFrame.cache (s : Scheduler) (c : CacheState) : SlotFrame seqId s (s.setCache c) :=
  Frame.of_cache Sequence.KeepsPlace.refl s c

theorem Frame.hostFrame (h : SlotFrame seqId s s') : HostFrame seqId s s' := h.mono fun _ _ k => k.toKeepsHost

/-- `SlotFrame` for the updates of slot and page fields. -/
theorem SlotFrame.setCache_updateSeq (s : Scheduler) (c : CacheState) (f : Sequence → Sequence)
    (hf : ∀ a, Sequence.KeepsPlace a (f a)) : SlotFrame seqId s ((s.setCache c).updateSeq seqId f) :=
  Frame.of_setCache_updateSeq s c f hf

theorem cacheEnsureStateSlot_frame (s : Scheduler) (seqId : ℕ) :
    SlotFrame seqId s (s.cacheEnsureStateSlot seqId).2 := by
  unfold cacheEnsureStateSlot
  split_ifs
  · split
    · exact .cache s _
    · exact .setCache_updateSeq s _ _ fun _ =>
        ⟨⟨⟨rfl, rfl, rfl, rfl, rfl, rfl, rfl, rfl, rfl, rfl, rfl, rfl, rfl⟩,
        rfl, rfl, rfl⟩, rfl, rfl, rfl⟩
  · exact .refl s

theorem cacheEnsureHisparseSlot_frame (s : Scheduler) (seqId : ℕ) :
    SlotFrame seqId s (s.cacheEnsureHisparseSlot seqId).2 := by
  unfold cacheEnsureHisparseSlot
  split_ifs
  · split
    · exact .cache s _
    · exact .setCache_updateSeq s _ _ fun _ =>
        ⟨⟨⟨rfl, rfl, rfl, rfl, rfl, rfl, rfl, rfl, rfl, rfl, rfl, rfl, rfl⟩,
        rfl, rfl, rfl⟩, rfl, rfl, rfl⟩
  · exact .refl s

theorem cacheEnsureCompressedPages_frame (s : Scheduler) (seqId : ℕ) (neededTokens : ℤ) :
    SlotFrame seqId s (s.cacheEnsureCompressedPages seqId neededTokens).2 := by
  unfold cacheEnsureCompressedPages
  split_ifs
  · exact .refl s
  · split
    · exact .cache s _
    · exact .setCache_updateSeq s _ _ fun _ =>
        ⟨⟨⟨rfl, rfl, rfl, rfl, rfl, rfl, rfl, rfl, rfl, rfl, rfl, rfl, rfl⟩,
        rfl, rfl, rfl⟩, rfl, rfl, rfl⟩

theorem cacheEnsureSlotsAndPages_frame (s : Scheduler) (seqId : ℕ) (neededTokens : ℤ) :
    SlotFrame seqId s (s.cacheEnsureSlotsAndPages seqId neededTokens).2 := by
  have h₁ := cacheEnsureStateSlot_frame s seqId
  unfold cacheEnsureSlotsAndPages
  split
  case h_1 heq => rwa [heq] at h₁
  case h_2 s₁ heq₁ =>
    rw [heq₁] at h₁
    have h₂ := cacheEnsureHisparseSlot_frame s₁ seqId
    split
    case h_1 heq => rw [heq] at h₂; exact h₁.trans h₂
    case h_2 s₂ heq₂ =>
      rw [heq₂] at h₂
      exact h₁.trans (h₂.trans (cacheEnsureCompressedPages_frame s₂ seqId neededTokens))

theorem attachMigrateSlots_frame (s : Scheduler) (seqId : ℕ) : SlotFrame seqId s (s.attachMigrateSlots seqId) :=
  Frame.of_updateSeq _ _ fun _ =>
    ⟨⟨⟨rfl, rfl, rfl, rfl, rfl, rfl, rfl, rfl, rfl, rfl, rfl, rfl, rfl⟩, rfl, rfl, rfl⟩, rfl, rfl, rfl⟩

/-- An admission that ends well settles the group of its sequence. -/
structure SettlesGroup (master : ℕ) (a b : Sequence) : Prop extends Sequence.KeepsHost a b where
  activeDpIdx : b.activeDpIdx = a.activeDpIdx
  activeGroupId : b.activeGroupId = master
  activeBlockTable : b.activeBlockTable = a.activeBlockTable

theorem SettlesGroup.keeps {master : ℕ} {a b c : Sequence} (h : SettlesGroup master a b) (k : b.KeepsPlace c) :
    SettlesGroup master a c where
  toKeepsHost := h.toKeepsHost.trans k.toKeepsHost
  activeDpIdx := k.activeDpIdx.trans h.activeDpIdx
  activeGroupId := k.activeGroupId.trans h.activeGroupId
  activeBlockTable := k.activeBlockTable.trans h.activeBlockTable

theorem finishAdmission_frame (s : Scheduler) (seqId master : ℕ) (fullLen cached : ℤ) :
    Frame (SettlesGroup master) seqId s (s.finishAdmission seqId master fullLen cached).2 := by
  unfold finishAdmission
  dsimp only
  have h₁ : Frame (SettlesGroup master) seqId s (s.updateSeq seqId (fun seq =>
      if s.config.mode = .decode then { seq with activeGroupId := master }
      else { seq with activeGroupId := master, migrateGroupId := master })) := by
    refine Frame.of_updateSeq _ _ fun a => ?_
    split_ifs <;> exact ⟨⟨⟨rfl, rfl, rfl, rfl, rfl, rfl, rfl, rfl, rfl, rfl, rfl, rfl, rfl⟩, rfl, rfl, rfl⟩,
      rfl, rfl, rfl⟩
  have h₂ := h₁.comp (cacheEnsureSlotsAndPages_frame _ seqId fullLen) fun _ _ _ => SettlesGroup.keeps
  split
  case h_1 heq => rwa [heq] at h₂
  case h_2 s₂ heq =>
    rw [heq] at h₂
    refine h₂.comp (SlotFrame.trans ?_ (.cache _ _)) fun _ _ _ => SettlesGroup.keeps
    split_ifs
    · exact .refl _
    · exact attachMigrateSlots_frame _ _

/-! ### Growth, commits and completed swaps -/

/-- The cursor of the router is outside every frame. -/
theorem cacheAssignment_frame (s : Scheduler) (seqId : ℕ) : HostFrame seqId s (s.cacheAssignment seqId).2 := by
  unfold cacheAssignment chooseAssignment
  split
  · exact .refl s
  · dsimp only
    split_ifs
    · exact .cache s _
    · refine HostFrame.trans ?_ (.cache _ _)
      exact
        { SameQueues.refl s with
          others := fun _ _ => rfl
          missing := fun h => h
          entry := fun a ha => ⟨a, ha, .refl a⟩ }

variable [Xxh3]

theorem cacheGrowSeq_frame (s : Scheduler) (seqId dpIdx groupId : ℕ) (seq : Sequence) (neededTokens : ℤ)
    (isPrefill : Bool) :
    HostFrame seqId s (s.cacheGrowSeq seqId dpIdx groupId seq neededTokens isPrefill).2 := by
  unfold cacheGrowSeq
  dsimp only
  split
  · exact .cache s _
  case h_2 blocks c heq =>
    have h₁ : HostFrame seqId s ((s.setCache c).cacheAttachActiveBlocks seqId dpIdx groupId blocks) :=
      HostFrame.trans (.cache s c) (cacheAttachActiveBlocks_frame _ _ _ _ _)
    have h₂ := h₁.trans (cacheEnsureSlotsAndPages_frame _ seqId neededTokens).hostFrame
    split
    case h_1 heq => rwa [heq] at h₂
    case h_2 s₂ heq =>
      rw [heq] at h₂
      split_ifs
      · exact h₂.trans ((cacheAttachMigrateBlocks_frame _ _ _ _ _).trans (attachMigrateSlots_frame _ _).hostFrame)
      · exact h₂

theorem cacheEnsureBlocksForSeq_frame (s : Scheduler) (seqId : ℕ) (isPrefill : Bool) :
    HostFrame seqId s (s.cacheEnsureBlocksForSeq seqId isPrefill).2 := by
  unfold cacheEnsureBlocksForSeq
  split
  · exact .refl s
  · dsimp only
    split
    · exact .refl s
    · exact (cacheAssignment_frame s seqId).trans (cacheGrowSeq_frame _ _ _ _ _ _ _)

theorem commitHbmBlocks_frame (s : Scheduler) (seqId : ℕ) (committedTokens : ℤ) :
    SlotFrame seqId s (s.commitHbmBlocks seqId committedTokens) := by
  unfold commitHbmBlocks
  split
  · exact .refl s
  · dsimp only
    split_ifs
    · exact .refl s
    · exact .cache s _

/-- A commit changes the cache only. -/
theorem commitHbmBlocks_seqTable (s : Scheduler) (seqId : ℕ) (committedTokens : ℤ) :
    (s.commitHbmBlocks seqId committedTokens).seqTable = s.seqTable := by
  unfold commitHbmBlocks
  split
  · rfl
  · dsimp only
    split <;> rfl

omit [Xxh3]

theorem completeHostSwapOut_frame (s : Scheduler) (task : SwapTask) :
    HostFrame task.seqId s (s.completeHostSwapOut task) := by
  unfold completeHostSwapOut
  split
  · exact .refl s
  · refine (HostFrame.cache s _).trans (Frame.of_updateSeq _ _ fun a => ?_)
    exact ⟨⟨rfl, rfl, rfl, rfl, rfl, rfl, rfl, rfl, rfl, rfl, rfl, rfl, rfl⟩, rfl, rfl, rfl⟩

/-- The host copy of a restored sequence is given up. -/
theorem completeHostSwapIn_frame (flat : ℕ) (s : Scheduler) (task : SwapTask) :
    Frame (fun a b => a.KeepsProgress b ∧ b.hostBlockTable = []) task.seqId s (completeHostSwapIn flat s task) := by
  unfold completeHostSwapIn
  refine (CacheFrame.cache s _).comp (Frame.of_updateSeq _ _
    (R := fun a b => a.KeepsProgress b ∧ b.hostBlockTable = []) fun a => ⟨?_, rfl⟩) fun a b c hab hbc =>
      ⟨hab.trans hbc.1, hbc.2⟩
  exact ⟨rfl, rfl, rfl, rfl, rfl, rfl, rfl, rfl, rfl, rfl, rfl, rfl, rfl⟩

/-- Queues and progress of all sequences are unchanged. -/
structure SwapFrame (s s' : Scheduler) : Prop extends SameQueues s s' where
  table : TableRel Sequence.KeepsProgress s s'

theorem SwapFrame.refl (s : Scheduler) : SwapFrame s s := ⟨.refl s, .refl Sequence.KeepsProgress.refl s⟩

theorem SwapFrame.trans (h : SwapFrame s s') (k : SwapFrame s' s'') : SwapFrame s s'' :=
  ⟨h.toSameQueues.trans k.toSameQueues, h.table.trans (fun _ _ _ => Sequence.KeepsProgress.trans) k.table⟩

theorem Frame.swapFrame (h : CacheFrame seqId s s') : SwapFrame s s' :=
  ⟨h.toSameQueues, h.table Sequence.KeepsProgress.refl⟩

theorem SwapFrame.cache (s : Scheduler) (c : CacheState) : SwapFrame s (s.setCache c) :=
  ⟨⟨rfl, rfl, rfl, rfl, rfl, rfl, rfl, rfl, rfl⟩, fun _ h => h, fun _ a ha => ⟨a, ha, .refl a⟩⟩

/-- A fold of operations that keep queues and progress keeps them. -/
theorem SwapFrame.foldl {β : Type} {f : Scheduler → β → Scheduler}
    (hf : ∀ s b, SwapFrame s (f s b)) (l : List β)
    (s : Scheduler) : SwapFrame s (l.foldl f s) := by
  induction l generalizing s with
  | nil => exact .refl s
  | cons b l ih => exact (hf s b).trans (ih (f s b))

theorem cacheCompleteHostSwapOuts_frame (s : Scheduler) (tasks : List (List SwapTask)) :
    SwapFrame s (s.cacheCompleteHostSwapOuts tasks) := by
  have h : SwapFrame s (tasks.flatten.foldl completeHostSwapOut s) :=
    SwapFrame.foldl (fun s task => (completeHostSwapOut_frame s task).cacheFrame.swapFrame) _ s
  exact h.trans (SwapFrame.cache _ _)

theorem completeHostSwapInsFrom_frame (flat : ℕ) (tasks : List (List SwapTask)) (s : Scheduler) :
    SwapFrame s (completeHostSwapInsFrom flat tasks s) := by
  induction tasks generalizing flat s with
  | nil => exact .refl s
  | cons groupTasks tasks ih =>
    have hin : ∀ s task, SwapFrame s (completeHostSwapIn flat s task) := fun s task =>
      ((completeHostSwapIn_frame flat s task).mono fun _ _ h => h.1).swapFrame
    exact (SwapFrame.foldl hin groupTasks s).trans (ih _ _)

theorem cacheCompleteHostSwapIns_frame (s : Scheduler) (tasks : List (List SwapTask)) :
    SwapFrame s (s.cacheCompleteHostSwapIns tasks) :=
  (completeHostSwapInsFrom_frame 0 tasks s).trans (SwapFrame.cache _ _)

end cacheFrames

/-! ## Dummies -/

/-- A one-token dummy is entered for a group without work. -/
structure AddsDummy (seqId : ℕ) (s s' : Scheduler) : Prop where
  config : s'.config = s.config
  waiting : s'.waiting = s.waiting
  waitingMigration : s'.waitingMigration = s.waitingMigration
  running : s'.running = s.running
  prefilling : s'.prefilling = s.prefilling
  toBeMigrated : s'.toBeMigrated = s.toBeMigrated
  cache : s'.cache = s.cache
  dummySeqIds : s'.dummySeqIds = insert seqId s.dummySeqIds
  lastStepTokenIds : s'.lastStepTokenIds = s.lastStepTokenIds
  others : ∀ id, id ≠ seqId → s'.seqTable id = s.seqTable id
  entry : ∃ seq, s'.seqTable seqId = some seq ∧ seq.IsDummy seqId

theorem makeDummySeqId_spec (s : Scheduler) (d g : ℕ) :
    AddsDummy (u64Max - (d * s.group + g)) s (s.makeDummySeqId d g).2 :=
  ⟨rfl, rfl, rfl, rfl, rfl, rfl, rfl, rfl, rfl, fun _ hid => Function.update_of_ne hid _ _, _,
    Function.update_self _ _ _,
    ⟨rfl, rfl, rfl, rfl, rfl, rfl, rfl⟩⟩

end Scheduler

end NanoEngine
