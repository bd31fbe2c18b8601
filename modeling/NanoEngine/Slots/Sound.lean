import NanoEngine.Slots.Main

/-!
# NanoEngine.Slots.Sound — the pools of slots and pages are in order in every reachable state

`SlotPoolsInv` asks for no test, in contrast to `SlotInv`: wherever a sequence takes its slots and pages, they were free
before.
-/

namespace NanoEngine

open Scheduler

/-- The slot and page pools of the cache are in order, whatever the sequences record of them. -/
structure SlotPoolsInv (config : SchedulerConfig) (s : Scheduler) : Prop where
  config_eq : s.config = config
  sound : s.cache.slotPart.PoolsSound config

namespace SlotPoolsInv

variable {config : SchedulerConfig} {s s' : Scheduler} {id d : ℕ}

theorem same (h : SlotPoolsInv config s) (hs : SlotSame s s') : SlotPoolsInv config s' :=
  ⟨hs.config.trans h.config_eq, hs.slotPart ▸ h.sound⟩

theorem setCache (h : SlotPoolsInv config s) {c : CacheState} (hc : c.slotPart.PoolsSound config) :
    SlotPoolsInv config (s.setCache c) := ⟨h.config_eq, hc⟩

/-! ## Slots and pages -/

theorem cacheEnsureStateSlot (h : SlotPoolsInv config s) (id : ℕ) :
    SlotPoolsInv config (s.cacheEnsureStateSlot id).2 := by
  have hens : (s.cache.ensureStateSlot s.dp id).2.slotPart.PoolsSound config := by
    unfold CacheState.ensureStateSlot
    split
    case h_1 => exact h.sound
    case h_2 =>
      split
      case h_1 => exact h.sound
      case h_2 d _ _ => exact h.sound.ensure .state d id
  unfold Scheduler.cacheEnsureStateSlot
  split
  case isFalse => exact h
  case isTrue => split <;> rename_i heq <;> rw [heq] at hens <;> exact ⟨h.config_eq, hens⟩

theorem cacheEnsureHisparseSlot (h : SlotPoolsInv config s) (id : ℕ) :
    SlotPoolsInv config (s.cacheEnsureHisparseSlot id).2 := by
  have hens : (s.cache.ensureHisparseSlot s.dp id).2.slotPart.PoolsSound config := by
    unfold CacheState.ensureHisparseSlot
    split
    case h_1 => exact h.sound
    case h_2 =>
      split
      case h_1 => exact h.sound
      case h_2 d _ _ => exact h.sound.ensure .hisparse d id
  unfold Scheduler.cacheEnsureHisparseSlot
  split
  case isFalse => exact h
  case isTrue => split <;> rename_i heq <;> rw [heq] at hens <;> exact ⟨h.config_eq, hens⟩

theorem cacheEnsureCompressedPages (h : SlotPoolsInv config s) (id : ℕ) (neededTokens : ℤ) :
    SlotPoolsInv config (s.cacheEnsureCompressedPages id neededTokens).2 := by
  have hkept := s.cacheEnsureCompressedPages_kept id neededTokens
  refine ⟨hkept.config.trans h.config_eq, fun k d => ?_, fun k d => ?_, ?_⟩
  · rw [hkept.pools]
    exact h.sound.slots k d
  · rw [hkept.pools]
    exact h.sound.numSlots k d
  · show List.Forall₂ _ _ (s.cacheEnsureCompressedPages id neededTokens).2.cache.compressedPools
    rcases s.cacheEnsureCompressedPages_pools id neededTokens with heq | heq <;> rw [heq]
    · exact h.sound.pages
    · exact CacheState.ensureCompressedLoop_pages id neededTokens h.sound.pages

/-- Slots and pages taken in turn; an error leaves what was taken before it. -/
theorem cacheEnsureSlotsAndPages (h : SlotPoolsInv config s) (id : ℕ) (neededTokens : ℤ) :
    SlotPoolsInv config (s.cacheEnsureSlotsAndPages id neededTokens).2 := by
  have h₁ := h.cacheEnsureStateSlot id
  unfold Scheduler.cacheEnsureSlotsAndPages
  split
  case h_1 e s₁ heq =>
    rw [heq] at h₁
    exact h₁
  case h_2 s₁ heq =>
    rw [heq] at h₁
    have h₂ := h₁.cacheEnsureHisparseSlot id
    split
    case h_1 e s₂ heq₂ =>
      rw [heq₂] at h₂
      exact h₂
    case h_2 s₂ heq₂ =>
      rw [heq₂] at h₂
      exact h₂.cacheEnsureCompressedPages id neededTokens

/-! ## The operations of a step -/

theorem releaseSeq (h : SlotPoolsInv config s) (id : ℕ) : SlotPoolsInv config (s.releaseSeq id) :=
  ⟨h.config_eq, (CacheState.releaseSeq_slotPart s.cache id s.group).symm ▸ h.sound.release id⟩

theorem completeHostSwapOut (h : SlotPoolsInv config s) (task : SwapTask) :
    SlotPoolsInv config (s.completeHostSwapOut task) := by
  unfold Scheduler.completeHostSwapOut
  split
  case h_1 => exact h
  case h_2 pending _ => exact ⟨h.config_eq, h.sound.unassign task.seqId⟩

theorem completeSwaps (h : SlotPoolsInv config s) (r : ScheduleResult) : SlotPoolsInv config (s.completeSwaps r) := by
  have houts := List.foldlRecOn r.swapOutTasks.flatten Scheduler.completeHostSwapOut (motive := SlotPoolsInv config) h
    fun s hs task _ => hs.completeHostSwapOut task
  have hclear : SlotPoolsInv config (s.cacheCompleteHostSwapOuts r.swapOutTasks) := houts.same (.setCache _ rfl)
  have hins : ∀ (tasks : List (List SwapTask)) (flat : ℕ) (s : Scheduler), SlotPoolsInv config s →
      SlotPoolsInv config (completeHostSwapInsFrom flat tasks s) := by
    intro tasks
    induction tasks with
    | nil => exact fun _ _ hs => hs
    | cons group tasks ih =>
      intro flat s hs
      exact ih (flat + 1) _ (List.foldlRecOn group (completeHostSwapIn flat) (motive := SlotPoolsInv config) hs
        fun s hs task _ => hs.same (completeHostSwapIn_same flat s task))
  exact (hins r.swapInTasks 0 _ hclear).same (.setCache _ rfl)

theorem dummies {s s' : Scheduler} (h : SlotPoolsInv config s) (he : EntersDummies s s') : SlotPoolsInv config s' :=
  ⟨he.config.trans h.config_eq, he.cache ▸ h.sound⟩

variable [Xxh3]

/-- A preemption gives the slots of the victim back. -/
theorem preemptImpl (h : SlotPoolsInv config s) (dpIdx id : ℕ) : SlotPoolsInv config (s.preemptImpl dpIdx id) := by
  have hrequeue : SlotSame s (s.updateSeq id Sequence.requeue) :=
    .updateSeq s id _ fun _ => ⟨rfl, rfl, fun hf => by cases hf⟩
  have hswap := hrequeue.trans ((s.updateSeq id Sequence.requeue).cachePrepareHostSwapOut_same id)
  unfold Scheduler.preemptImpl
  split
  case h_1 s' heq =>
    rw [heq] at hswap
    exact (h.same hswap).same (.of_eq rfl rfl rfl)
  case h_2 s' heq =>
    rw [heq] at hswap
    exact ((h.same hswap).releaseSeq id).same (.of_eq rfl rfl rfl)

omit [Xxh3] in
theorem finishAdmission (h : SlotPoolsInv config s) (id master : ℕ) (fullLen cached : ℤ) :
    SlotPoolsInv config (s.finishAdmission id master fullLen cached).2 := by
  unfold Scheduler.finishAdmission
  set f : Sequence → Sequence := fun seq =>
    if s.config.mode = .decode then { seq with activeGroupId := master }
    else { seq with activeGroupId := master, migrateGroupId := master }
  have hnamed : SlotPoolsInv config (s.updateSeq id f) := ⟨h.config_eq, h.sound⟩
  have hens := hnamed.cacheEnsureSlotsAndPages id fullLen
  dsimp only
  split
  case h_1 e s₁ heq =>
    rw [heq] at hens
    exact hens
  case h_2 s₁ heq =>
    rw [heq] at hens
    split <;> exact ⟨hens.config_eq, hens.sound⟩

/-- An attempt, admitted, undone or failed, takes slots only in `finish_admission`. -/
theorem tryAllocatePrefill (h : SlotPoolsInv config s) (id d : ℕ) (batchSeqs batchTokens : ℕ → ℤ) :
    SlotPoolsInv config (s.tryAllocatePrefill id d batchSeqs batchTokens).2 := by
  have hprep := s.prepareAdmission_same id d batchSeqs batchTokens
  unfold Scheduler.tryAllocatePrefill
  split
  case h_1 s₁ heq =>
    rw [heq] at hprep
    exact h.same hprep
  case h_2 a s₁ heq =>
    rw [heq] at hprep
    have h₁ := h.same hprep
    set dispatch := s₁.computeDispatch d a.master a.fullLen
    have hbegin : SlotPoolsInv config (s₁.beginAdmission id d a.master a.cached (a.cached + a.newTokens) dispatch) :=
      ⟨h₁.config_eq, h₁.sound.assign id d a.master⟩
    have hreserve := hbegin.same (ensureDispatched_same id d 0 dispatch
      (s₁.beginAdmission id d a.master a.cached (a.cached + a.newTokens) dispatch))
    split
    case h_1 e s₂ hres =>
      rw [show (ensureDispatched id d 0 dispatch _).2 = s₂ from congrArg Prod.snd hres] at hreserve
      have hcancel : SlotPoolsInv config (s₂.cancelAdmission id) :=
        ⟨hreserve.config_eq, hreserve.sound.unassign id⟩
      unfold preemptOneForAllocation
      cases (s₂.cancelAdmission id).preemptVictim d id with
      | none => exact hcancel
      | some victim => exact hcancel.preemptImpl d victim
    case h_2 s₂ hres =>
      rw [show (ensureDispatched id d 0 dispatch _).2 = s₂ from congrArg Prod.snd hres] at hreserve
      have hfinish := hreserve.finishAdmission id a.master a.fullLen a.cached
      split
      case h_1 e s₃ heq₃ =>
        rw [heq₃] at hfinish
        exact hfinish
      case h_2 s₃ heq₃ =>
        rw [heq₃] at hfinish
        exact hfinish

/-- A restore ensures the slots of the sequence once more. -/
theorem restore (h : SlotPoolsInv config s) (id d : ℕ) :
    SlotPoolsInv config (s.cacheTryRestoreHostBlocks id d).2 := by
  unfold cacheTryRestoreHostBlocks
  split
  case h_1 => exact h
  case h_2 seq _ =>
    dsimp only
    split
    case isTrue => exact h
    case isFalse =>
      split
      case isTrue => exact h
      case isFalse =>
        split
        case isTrue => exact h
        case isFalse =>
          split
          case h_1 e c heq => exact h.same (.setCache s (congrArg (fun r => r.2.slotPart) heq).symm)
          case h_2 gpuBlocks c heq =>
            have hpart : c.slotPart = s.cache.slotPart := (congrArg (fun r => r.2.slotPart) heq).symm
            exact ⟨h.config_eq, (hpart ▸ h.sound : c.slotPart.PoolsSound config).assign id d (s.groupOf seq)⟩

/-- Growing takes slots and pages behind the blocks. -/
theorem grow (h : SlotPoolsInv config s) (id : ℕ) (isPrefill : Bool) :
    SlotPoolsInv config (s.cacheEnsureBlocksForSeq id isPrefill).2 := by
  unfold cacheEnsureBlocksForSeq
  split
  case h_1 => exact h
  case h_2 seq _ =>
    dsimp only
    split
    case isTrue => exact h
    case isFalse =>
      have hplaced : SlotPoolsInv config (s.cacheAssignment id).2 := by
        unfold cacheAssignment chooseAssignment
        split
        case h_1 => exact h
        case h_2 => split <;> exact ⟨h.config_eq, h.sound.assign id _ _⟩
      generalize s.cacheAssignment id = placed at hplaced
      unfold cacheGrowSeq
      dsimp only
      split
      case h_1 e c heq => exact hplaced.same (.setCache _ (congrArg (fun r => r.2.slotPart) heq).symm)
      case h_2 blocks c heq =>
        have hcache : SlotSame placed.2 (placed.2.setCache c) :=
          .setCache _ (congrArg (fun r => r.2.slotPart) heq).symm
        have hens := ((hplaced.same hcache).same (cacheAttachActiveBlocks_same _ id placed.1.1 placed.1.2
          blocks)).cacheEnsureSlotsAndPages id (s.growthTokens seq isPrefill)
        split
        case h_1 e s₂ heq₂ =>
          rw [heq₂] at hens
          exact hens
        case h_2 s₂ heq₂ =>
          rw [heq₂] at hens
          split
          case isTrue => exact ⟨hens.config_eq, hens.sound⟩
          case isFalse => exact hens

/-- A sequence that ends or migrates gives back what it holds; one that goes on takes nothing. -/
theorem postprocessSeq (h : SlotPoolsInv config s) (d id : ℕ) (row : Option (List ℤ)) (logprobs : List ℚ) :
    SlotPoolsInv config (s.postprocessSeq d id row logprobs) := by
  unfold Scheduler.postprocessSeq
  split
  case isTrue => exact h
  case isFalse =>
    split
    case h_1 => exact ⟨h.config_eq, h.sound⟩
    case h_2 tokens =>
      split
      case h_1 => exact h
      case h_2 seq hseq =>
        split
        case isTrue =>
          have hcommit := h.same (s.commitHbmBlocks_same id seq.numTokens)
          exact ⟨hcommit.config_eq, hcommit.sound⟩
        case isFalse =>
          have h₁ := h.same (postprocessAppend_same hseq tokens logprobs)
          set s₁ := (s.postprocessAppend id seq tokens logprobs).2
          dsimp only
          unfold postprocessPlace
          split
          case isTrue =>
            have hmarked : SlotPoolsInv config (s₁.updateSeq id (fun seq => { seq with status := .finished })) :=
              ⟨h₁.config_eq, h₁.sound⟩
            exact hmarked.releaseSeq id
          case isFalse =>
            split
            case isTrue => exact ⟨h₁.config_eq, h₁.sound⟩
            case isFalse => exact ⟨(h₁.grow id false).config_eq, (h₁.grow id false).sound⟩

/-! ## Runs -/

/-- **Every engine step keeps the pools in order**, whatever the tests on its turns. -/
theorem stepRule (config : SchedulerConfig) (W : PrefillState.RankTest) (D : DecodeTest)
    (P : PostTest) (L : Finset ℕ) :
    StepRule W D P L (SlotPoolsInv config) where
  frame _ _ hconfig hcache _ h := ⟨hconfig.trans h.config_eq, hcache ▸ h.sound⟩
  route s id h := h.same (s.routeCandidates_same id)
  note _ _ _ h := ⟨h.config_eq, h.sound⟩
  mark _ _ h := ⟨h.config_eq, h.sound⟩
  advance _ _ _ _ h := ⟨h.config_eq, h.sound⟩
  restore _ id d h _ _ _ := h.restore id d
  tryOn _ id d h _ _ _ := h.tryAllocatePrefill id d _ _
  grow _ id _ h _ _ := h.grow id false
  preempt _ id d h _ := h.preemptImpl d id
  dummies _ _ he h := h.dummies he
  swaps _ r h := h.completeSwaps r
  post _ id d row logprobs h _ _ _ := h.postprocessSeq d id row logprobs
  report s dpSeqIds track previous h := h.same (s.recordCompleteStep_same dpSeqIds track previous)

/-- **So does every event of a run.** -/
theorem engineRule (config : SchedulerConfig) (W : PrefillState.RankTest) (D : DecodeTest) (P : PostTest) :
    EngineRule W D P config (fun _ => SlotPoolsInv config) where
  config_eq _ _ h := h.config_eq
  init := ⟨rfl, (SlotInv.init config).sound⟩
  step L _ := stepRule config W D P L
  add _ s seq _ _ h := by
    have hadd := addSequence_spec s seq
    exact ⟨hadd.config.trans h.config_eq, hadd.cache ▸ h.sound⟩
  abort _ s id hfound h := by
    have hrelease := h.releaseSeq id
    unfold abortImpl at hfound ⊢
    split
    case isTrue => exact ⟨hrelease.config_eq, hrelease.sound⟩
    case isFalse hnot => simp [hnot] at hfound
  free _ s id hmig h := by
    have hrelease := h.releaseSeq id
    unfold freeToBeMigratedIdsImpl
    rw [List.foldl_cons, List.foldl_nil]
    unfold freeToBeMigrated
    rw [if_pos hmig]
    exact ⟨hrelease.config_eq, hrelease.sound⟩
  toggle _ _ _ h := ⟨h.config_eq, h.sound⟩

end SlotPoolsInv

end NanoEngine
