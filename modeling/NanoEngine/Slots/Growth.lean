import NanoEngine.Slots.Schedule

/-!
# NanoEngine.Slots.Growth — restored, grown and swapped-out sequences keep their slots

* `slotTest`: a sequence is admitted on a rank only while it holds no slot of another rank, and restored only where it
  still holds the slots it records.
* `decodeHasRank`, `postHasRank`: a sequence that is grown has a rank.
-/

namespace NanoEngine

open Scheduler

/-- The slots of a sequence allow its admission or its restore on this rank. -/
def slotTest : PrefillState.RankTest := fun st seqId dpIdx =>
  if st.sched.cacheSeqHasHostBlocks seqId then
    decide (st.sched.homeRank seqId ≠ some dpIdx) ||
      (st.sched.slotsOnlyOn seqId dpIdx && st.sched.slotsHere seqId dpIdx)
  else st.sched.slotsOnlyOn seqId dpIdx

def decodeHasRank : DecodeTest := fun st seqId _ => st.sched.hasRank seqId

/-- A sequence that is postprocessed has a rank, unless it is a dummy. -/
def postHasRank : PostTest := fun s seqId => decide (seqId ∈ s.dummySeqIds) || s.hasRank seqId

namespace SlotInv

variable [Xxh3] {config : SchedulerConfig} {L : Finset ℕ} {s : Scheduler} {id d : ℕ}

/-! ## Restore -/

/-- A restore puts the sequence back where its slots are. -/
theorem restore (h : SlotInv config L none s) (hlive : id ∈ L)
    (htest : s.homeRank id = some d → s.slotsOnlyOn id d = true ∧ s.slotsHere id d = true) :
    SlotInv config L none (s.cacheTryRestoreHostBlocks id d).2 := by
  unfold cacheTryRestoreHostBlocks
  split
  case h_1 => exact h
  case h_2 seq hseq =>
    dsimp only
    split
    case isTrue => exact h
    case isFalse hhome =>
      push Not at hhome
      split
      case isTrue => exact h
      case isFalse =>
        split
        case isTrue => exact h
        case isFalse =>
          split
          case h_1 e c heq => exact h.same (.setCache s (congrArg (fun r => r.2.slotPart) heq).symm)
          case h_2 gpuBlocks c heq =>
            have hpart : c.slotPart = s.cache.slotPart := (congrArg (fun r => r.2.slotPart) heq).symm
            obtain ⟨honly, hhere⟩ := htest (by simp [homeRank, hseq, hhome.2])
            have hdp : s.dp = config.dp := congrArg SchedulerConfig.dp h.config_eq
            have hassigned : SlotInv config L (some id)
                ((s.setCache (c.assignSeq id d (s.groupOf seq))).updateSeq id (fun seq' => { seq' with
                  activeDpIdx := d
                  activeGroupId := (s.groupOf seq : ℕ)
                  activeBlockTable := gpuBlocks
                  activeBlockTables := Function.update seq'.activeBlockTables (s.groupOf seq) (some gpuBlocks)
                  status := .running })) :=
              h.assign rfl
                (by rw [← hpart]; rfl) (.setCache_updateSeq s _ id _) (hdp ▸ slotsOnlyOn_pools honly) hlive
                (by simp [unfinished, updateSeq, setCache, hseq])
            refine SlotInv.same (hassigned.settle fun k hk d' g' seq' hassign hseq' => ?_) (.setCache _ rfl)
            simp only [updateSeq, setCache, Function.update_self, hseq, Option.map_some, Option.some.injEq] at hseq'
            obtain ⟨n, hn, hrec⟩ := slotsHere_home hhere hseq k (h.config_eq ▸ hk)
            have hd' : d' = d := by
              have hrank : (c.assignSeq id d (s.groupOf seq)).slotPart.seqAssignment id = some (d', g') := hassign
              simp only [CacheState.assignSeq, CacheState.slotPart, Function.update_self, Option.some.injEq,
                Prod.mk.injEq] at hrank
              exact hrank.1.symm
            refine ⟨n, ?_, ?_⟩
            · show (k.pools (c.slotPart.assign id d (s.groupOf seq)) d').seqSlots id = some n
              rw [SlotPart.pools_assign, hpart, hd', hn]
            · rw [← hseq']
              cases k with
              | state => exact hrec
              | hisparse => exact hrec

/-! ## Growth -/

/-- A sequence with a rank that is grown stays where it is. -/
theorem grow (h : SlotInv config L none s) (hrank : s.hasRank id = true) :
    SlotInv config L none (s.cacheEnsureBlocksForSeq id false).2 := by
  obtain ⟨⟨d, g⟩, hassign⟩ := Option.isSome_iff_exists.1 hrank
  unfold cacheEnsureBlocksForSeq
  split
  case h_1 => exact h
  case h_2 seq hseq =>
    dsimp only
    split
    case isTrue => exact h
    case isFalse =>
      unfold cacheAssignment
      rw [hassign]
      dsimp only
      unfold cacheGrowSeq
      dsimp only
      split
      case h_1 e c heq => exact h.same (.setCache s (congrArg (fun r => r.2.slotPart) heq).symm)
      case h_2 blocks c heq =>
        have hcache : SlotSame s (s.setCache c) := .setCache s (congrArg (fun r => r.2.slotPart) heq).symm
        have hsame := hcache.trans (cacheAttachActiveBlocks_same _ id d g blocks)
        have h₁ := h.same hsame
        set s₁ := (s.setCache c).cacheAttachActiveBlocks id d g blocks
        have hassign₁ : s₁.cache.slotPart.seqAssignment id = some (d, g) := by
          rw [hsame.slotPart]
          exact hassign
        obtain ⟨seq₁, hseq₁, -⟩ := hsame.table.entry id seq hseq
        -- the sequence is at home already, so nothing is taken
        have hcan : ∀ k : SlotKind, k.taken config = true →
          ((k.pools s₁.cache.slotPart d).ensure id).1 ≠ none := by
          intro k hk
          obtain ⟨n, hn, -⟩ := h₁.home k hk id d g seq₁ (by simp) hassign₁ hseq₁
          rw [SlotPool.ensure_of_some hn]
          simp
        have hens := (h₁.leaveOut id).ensureSlotsAndPages hassign₁ hcan (s.growthTokens seq false)
        split
        case h_1 e s₂ heq₂ =>
          rw [heq₂] at hens
          exact hens
        case h_2 s₂ heq₂ =>
          rw [heq₂] at hens
          simpa using hens

/-! ## Swaps -/

omit [Xxh3] in
theorem completeHostSwapOut (h : SlotInv config L none s) (task : SwapTask) :
    SlotInv config L none (s.completeHostSwapOut task) := by
  unfold Scheduler.completeHostSwapOut
  split
  case h_1 => exact h
  case h_2 pending _ =>
    exact (h.leaveOut task.seqId).unassign rfl rfl (.setCache_updateSeq s _ task.seqId _)

omit [Xxh3] in
theorem cacheCompleteHostSwapOuts (h : SlotInv config L none s) (tasks : List (List SwapTask)) :
    SlotInv config L none (s.cacheCompleteHostSwapOuts tasks) := by
  have hfold := List.foldlRecOn tasks.flatten Scheduler.completeHostSwapOut (motive := SlotInv config L none) h
    fun s hs task _ => hs.completeHostSwapOut task
  exact hfold.same (.setCache _ rfl)

omit [Xxh3] in
theorem completeHostSwapInsFrom (h : SlotInv config L none s) (flat : ℕ) (tasks : List (List SwapTask)) :
    SlotInv config L none (Scheduler.completeHostSwapInsFrom flat tasks s) := by
  induction tasks generalizing flat s with
  | nil => exact h
  | cons group tasks ih =>
    refine ih (List.foldlRecOn group (completeHostSwapIn flat) (motive := SlotInv config L none) h ?_) (flat + 1)
    intro s hs task _
    exact hs.same (completeHostSwapIn_same flat s task)

omit [Xxh3] in
theorem completeSwaps (h : SlotInv config L none s) (r : ScheduleResult) : SlotInv config L none (s.completeSwaps r) :=
  ((h.cacheCompleteHostSwapOuts r.swapOutTasks).completeHostSwapInsFrom 0 r.swapInTasks).same (.setCache _ rfl)

end SlotInv

end NanoEngine
