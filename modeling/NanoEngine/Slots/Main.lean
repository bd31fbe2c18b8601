import NanoEngine.Engine.StepRule
import NanoEngine.Slots.Growth

/-!
# NanoEngine.Slots.Main — slots and pages along runs of the engine

* `SlotsExclusive`: on every rank no two sequences record the same slot, the pages of every ratio are a partition and no
  slot is lost.
* `slots_exclusive`: it holds along every run whose steps pass `slotTest`, `decodeHasRank` and `postHasRank`.
* `not_slots_exclusive`: it fails when an admission runs out of pages after it has taken a slot, and the sequence is
  then admitted on another rank.
-/

namespace NanoEngine

open Scheduler Transition

namespace Scheduler

/-! ## Postprocessing and reports -/

theorem appendTokens_keepsSlots (s : Scheduler) (seq : Sequence) (tokens : List ℤ) (logprobs : List ℚ) :
    seq.KeepsSlots (s.appendTokens seq tokens logprobs).1 := by
  induction tokens generalizing seq logprobs with
  | nil => exact .refl seq
  | cons token tokens ih =>
    have hpush : seq.KeepsSlots (seq.pushToken token logprobs.head?) := ⟨rfl, rfl, fun h => h⟩
    unfold appendTokens
    split
    case isFalse => exact .refl seq
    case isTrue =>
      dsimp only
      split
      case isTrue => exact hpush
      case isFalse => exact hpush.trans (ih _ _)

theorem recordCompleteStep_same (s : Scheduler) (dpSeqIds : List (List ℕ)) (track : Bool) (previous : Finset ℕ) :
    SlotSame s (s.recordCompleteStep dpSeqIds track previous).2 := by
  have hcollect : ∀ (ids : List ℕ) (s : Scheduler), SlotSame s (collectSequenceEvents track previous ids s).2 := by
    intro ids
    induction ids with
    | nil => exact .refl
    | cons id ids ih =>
      intro s
      unfold collectSequenceEvents
      split
      case isTrue => exact ih s
      case isFalse =>
        split
        case h_1 => exact ih s
        case h_2 =>
          have hone := SlotSame.updateSeq s id (fun seq => { seq with visionSlots := [] }) fun _ =>
            ⟨rfl, rfl, fun h => h⟩
          exact hone.trans (ih _)
  have hclear : ∀ (ids : List ℕ) (s : Scheduler), SlotSame s (ids.foldl clearFinishedMetricState s) := by
    intro ids
    induction ids with
    | nil => exact .refl
    | cons id ids ih =>
      intro s
      have hone : SlotSame s (s.clearFinishedMetricState id) := .setCache s rfl
      exact hone.trans (ih _)
  exact (hcollect _ s).trans (hclear _ _)

variable [Xxh3]

theorem postprocessAppend_same {s : Scheduler} {seqId : ℕ} {seq : Sequence} (hseq : s.seqTable seqId = some seq)
    (tokens : List ℤ) (logprobs : List ℚ) : SlotSame s (s.postprocessAppend seqId seq tokens logprobs).2 := by
  unfold postprocessAppend
  dsimp only
  set start := if seq.status = .prefilling then { seq with status := SequenceStatus.running } else seq with hstart
  have hkeeps : seq.KeepsSlots start := by
    rw [hstart]
    split
    case isTrue => exact ⟨rfl, rfl, fun h => by cases h⟩
    case isFalse => exact .refl seq
  have h₁ := SlotSame.setEntry s hseq hkeeps
  set s₁ : Scheduler := { s with seqTable := Function.update s.seqTable seqId (some start) } with hs₁
  have hcommit :
    SlotSame s₁ (if start.numTokens = promptTarget start then s₁.commitHbmBlocks seqId (promptTarget start)
      else s₁) ∧ (if start.numTokens = promptTarget start then s₁.commitHbmBlocks seqId (promptTarget start)
      else s₁).seqTable seqId = some start := by
    split
    case isTrue => exact ⟨commitHbmBlocks_same _ _ _, by rw [commitHbmBlocks_seqTable]; simp [hs₁]⟩
    case isFalse => exact ⟨.refl _, by simp [hs₁]⟩
  have happ := SlotSame.setEntry _ hcommit.2 (appendTokens_keepsSlots (if start.numTokens = promptTarget start then
    s₁.commitHbmBlocks seqId (promptTarget start) else s₁) start tokens logprobs)
  exact ((h₁.trans hcommit.1).trans happ).trans (.of_eq rfl rfl rfl)

end Scheduler

namespace SlotInv

variable {config : SchedulerConfig} {L : Finset ℕ} {s : Scheduler} {id : ℕ}

/-- A finished sequence gives its slots back. -/
theorem finish (h : SlotInv config L none s) (id : ℕ) :
    SlotInv config L none ((s.updateSeq id (fun seq => { seq with status := .finished })).releaseSeq id) :=
  h.release rfl (CacheState.releaseSeq_slotPart _ _ _) (.of_others fun _ hid => Function.update_of_ne hid _ _)

theorem postprocessSeq [Xxh3] (h : SlotInv config L none s) (hrank : s.hasRank id = true) (d : ℕ)
    (row : Option (List ℤ))
    (logprobs : List ℚ) : SlotInv config L none (s.postprocessSeq d id row logprobs) := by
  unfold Scheduler.postprocessSeq
  split
  case isTrue => exact h
  case isFalse =>
    split
    case h_1 => exact h.same (.of_eq rfl rfl rfl)
    case h_2 tokens =>
      split
      case h_1 => exact h
      case h_2 seq hseq =>
        split
        case isTrue =>
          have hcommit := s.commitHbmBlocks_same id seq.numTokens
          have hmark := SlotSame.updateSeq (s.commitHbmBlocks id seq.numTokens) id
            (fun seq => { seq with status := .prefilling }) fun _ => ⟨rfl, rfl, fun h => by cases h⟩
          exact h.same ((hcommit.trans hmark).trans (.of_eq rfl rfl rfl))
        case isFalse =>
          have hsame := postprocessAppend_same hseq tokens logprobs
          have h₁ := h.same hsame
          set s₁ := (s.postprocessAppend id seq tokens logprobs).2
          dsimp only
          unfold postprocessPlace
          split
          case isTrue => exact h₁.finish id
          case isFalse =>
            split
            case isTrue =>
              have hmark := SlotSame.updateSeq s₁ id (fun seq => { seq with status := .toBeMigrated }) fun _ =>
                ⟨rfl, rfl, fun h => by cases h⟩
              exact h₁.same (hmark.trans (.of_eq rfl rfl rfl))
            case isFalse =>
              have hrank₁ : s₁.hasRank id = true := by
                have hranks := congrArg SlotPart.seqAssignment hsame.slotPart
                unfold hasRank at hrank ⊢
                rwa [show s₁.cache.seqAssignment = s.cache.seqAssignment from hranks]
              have hmark := SlotSame.updateSeq (s₁.cacheEnsureBlocksForSeq id false).2 id
                (fun seq => { seq with status := .running }) fun _ => ⟨rfl, rfl, fun h => by cases h⟩
              exact (h₁.grow hrank₁).same (hmark.trans (.of_eq rfl rfl rfl))

end SlotInv

/-! ## Along a run -/

section run

variable {config : SchedulerConfig}

theorem SlotInv.init (config : SchedulerConfig) : SlotInv config ∅ none (Scheduler.new config) where
  config_eq := rfl
  sound := by
    refine ⟨fun k d => ?_, fun k d => rfl, ?_⟩
    · cases k with
      | state => exact SlotPool.sound_new _
      | hisparse => exact SlotPool.sound_new _
    · show List.Forall₂ _ _ (CacheState.newCompressedPools config.cachePlan)
      refine List.forall₂_same.2 fun pool hpool => ⟨rfl, ?_⟩
      have hspec : ∃ spec, CompressedPool.ofSpec spec = some pool := by
        unfold CacheState.newCompressedPools at hpool
        split at hpool
        case isFalse => cases hpool
        case isTrue =>
          split at hpool
          case h_1 => cases hpool
          case h_2 h hh _ => exact ⟨_, hh.trans (by rw [List.mem_singleton.1 hpool])⟩
          case h_3 c _ hc => exact ⟨_, hc.trans (by rw [List.mem_singleton.1 hpool])⟩
          case h_4 h c hh hc =>
            split at hpool
            case isTrue => exact ⟨_, hc.trans (by rw [List.mem_singleton.1 hpool])⟩
            case isFalse =>
              rcases List.mem_cons.1 hpool with rfl | hpool
              · exact ⟨_, hh⟩
              · exact ⟨_, hc.trans (by rw [List.mem_singleton.1 hpool])⟩
      obtain ⟨spec, hspec⟩ := hspec
      exact CompressedPool.pages_ofSpec hspec
  home := fun k _ id d g seq _ hassign => by cases hassign
  only := fun k id d g hassign => by cases hassign
  assigned := fun id hne => absurd rfl hne

theorem SlotInv.dummies {L : Finset ℕ} {s s' : Scheduler} (h : SlotInv config L none s)
    (hfresh : ∀ id ∈ L, (Scheduler.new config).isReservedId id = false) (he : EntersDummies s s') :
    SlotInv config L none s' := by
  have hkept : ∀ id, s.cache.slotPart.seqAssignment id ≠ none → s'.seqTable id = s.seqTable id := by
    intro id hne
    have hreserved := hfresh id (h.assigned id hne).1
    rw [@isReservedId_congr s (Scheduler.new config) h.config_eq.symm] at hreserved
    exact he.others id hreserved
  refine ⟨he.config.trans h.config_eq, he.cache ▸ h.sound, ?_, ?_, ?_⟩
  · intro k hk id d g seq hex hassign hseq
    rw [he.cache] at hassign ⊢
    rw [hkept id (by rw [hassign]; simp)] at hseq
    exact h.home k hk id d g seq hex hassign hseq
  · rw [he.cache]
    exact h.only
  · intro id hne
    rw [he.cache] at hne
    obtain ⟨hL, hunf⟩ := h.assigned id hne
    refine ⟨hL, ?_⟩
    unfold unfinished at hunf ⊢
    rwa [hkept id hne]

theorem slot_stepRule [Xxh3] {L : Finset ℕ} (hfresh : ∀ id ∈ L, (Scheduler.new config).isReservedId id = false) :
    StepRule slotTest decodeHasRank postHasRank L (SlotInv config L none) where
  frame s s' hconfig hcache htable h := h.same (.of_eq hconfig (by rw [hcache]) htable)
  route s id h := h.same (s.routeCandidates_same id)
  note s affinity wait h := h.same (.setCache s rfl)
  mark s id h := h.same (s.markScheduled_same id)
  advance s id newTokens dispatch h := h.same (.updateSeq s id _ fun _ => ⟨rfl, rfl, fun hf => hf⟩)
  restore st id d h hlive hhost htest := by
    refine h.restore hlive fun hhome => ?_
    unfold slotTest at htest
    rw [if_pos hhost, Bool.or_eq_true, Bool.and_eq_true] at htest
    exact htest.resolve_left (by simp [hhome])
  tryOn st id d h hlive hhost htest := by
    unfold slotTest at htest
    rw [hhost] at htest
    exact h.tryAllocatePrefill hlive htest _ _
  grow st id d h hlive hrank := h.grow hrank
  preempt s id d h hlive := h.preemptImpl d id
  dummies s s' he h := h.dummies hfresh he
  swaps s r h := h.completeSwaps r
  post s id d row logprobs h hlive hdummy htest := by
    refine h.postprocessSeq ?_ d row logprobs
    unfold postHasRank at htest
    simpa [hdummy] using htest
  report s dpSeqIds track previous h := h.same (s.recordCompleteStep_same dpSeqIds track previous)

theorem SlotInv.add {L : Finset ℕ} {s : Scheduler} {seq : Sequence} (h : SlotInv config L none s)
    (hfree : ¬ (seq.seqId ∈ L ∧ s.unfinished seq.seqId = true)) :
    SlotInv config (insert seq.seqId L) none (s.addSequence seq) := by
  have hadd := addSequence_spec s seq
  -- an id that is not in use has no rank
  have hne : ∀ id, s.cache.slotPart.seqAssignment id ≠ none → id ≠ seq.seqId := by
    rintro id hassign rfl
    exact hfree (h.assigned _ hassign)
  have htable : ∀ id, id ≠ seq.seqId → (s.addSequence seq).seqTable id = s.seqTable id := by
    intro id hid
    rw [hadd.seqTable, Function.update_of_ne hid]
  refine ⟨hadd.config.trans h.config_eq, hadd.cache ▸ h.sound, ?_, ?_, ?_⟩
  · intro k hk id d g a hex hassign ha
    rw [hadd.cache] at hassign ⊢
    rw [htable id (hne id (by rw [hassign]; simp))] at ha
    exact h.home k hk id d g a hex hassign ha
  · rw [hadd.cache]
    exact h.only
  · intro id hassign
    rw [hadd.cache] at hassign
    obtain ⟨hL, hunf⟩ := h.assigned id hassign
    refine ⟨Finset.mem_insert_of_mem hL, ?_⟩
    unfold unfinished at hunf ⊢
    rwa [htable id (hne id hassign)]

theorem SlotInv.abort {L : Finset ℕ} {s : Scheduler} {id : ℕ} (h : SlotInv config L none s)
    (hfound : (s.abortImpl id).1 = true) : SlotInv config (L.erase id) none (s.abortImpl id).2 := by
  have hab := abortImpl_found hfound
  have hpart : (s.abortImpl id).2.cache.slotPart = s.cache.slotPart.release id := by
    unfold abortImpl at hfound ⊢
    split
    case isTrue => exact CacheState.releaseSeq_slotPart s.cache id s.group
    case isFalse hnot => simp [hnot] at hfound
  have hrel : SlotInv config L none (s.abortImpl id).2 :=
    h.release hab.config hpart
      ⟨fun _ _ hn => by rwa [hab.seqTable], fun _ _ a ha => ⟨a, by rwa [hab.seqTable], .refl a⟩⟩
  refine { hrel with assigned := fun id' hassign => ⟨Finset.mem_erase.2 ⟨?_, (hrel.assigned id' hassign).1⟩,
    (hrel.assigned id' hassign).2⟩ }
  rintro rfl
  rw [hpart] at hassign
  simp [SlotPart.release] at hassign

theorem slot_engineRule [Xxh3] (config : SchedulerConfig) :
    EngineRule slotTest decodeHasRank postHasRank config (fun L => SlotInv config L none) where
  config_eq L s h := h.config_eq
  init := .init config
  step L hfresh := slot_stepRule hfresh
  add L s seq _ hfree h := h.add hfree
  abort L s id hfound h := h.abort hfound
  free L s id hmig h := by
    unfold freeToBeMigratedIdsImpl
    rw [List.foldl_cons, List.foldl_nil]
    unfold freeToBeMigrated
    rw [if_pos hmig]
    exact h.release rfl (CacheState.releaseSeq_slotPart s.cache id s.group)
      (.of_others fun _ hid => Function.update_of_ne hid _ _)
  toggle L s enabled h := h.same (.setCache s rfl)

end run

/-- Slots and pages of all ranks are held exclusively, and none is lost. -/
structure SlotsExclusive (config : SchedulerConfig) (s : Scheduler) : Prop where
  slots : ∀ k : SlotKind, k.taken config = true →
    ∀ id id' d g g' seq seq', s.cache.seqAssignment id = some (d, g) →
    s.cache.seqAssignment id' = some (d, g') → s.seqTable id = some seq → s.seqTable id' = some seq' →
      k.recorded seq = k.recorded seq' → id = id'
  pages : List.Forall₂ (fun pool₀ pool => pool.ratio = pool₀.ratio ∧ pool.Partition pool₀.freePages.length)
    (CacheState.newCompressedPools config.cachePlan) s.cache.compressedPools
  count : ∀ (k : SlotKind) d, (k.pools s.cache.slotPart d).freeSlots.length +
    (k.pools s.cache.slotPart d).holders.ncard =
    (k.pools (CacheState.new config).slotPart d).numSlots

theorem SlotInv.exclusive {config : SchedulerConfig} {L : Finset ℕ} {s : Scheduler} (h : SlotInv config L none s) :
    SlotsExclusive config s where
  slots := by
    intro k hk id id' d g g' seq seq' hid hid' hseq hseq' heq
    obtain ⟨n, hn, hrec⟩ := h.home k hk id d g seq (by simp) hid hseq
    obtain ⟨n', hn', hrec'⟩ := h.home k hk id' d g' seq' (by simp) hid' hseq'
    have hsame : n' = n := by
      rw [hrec, hrec'] at heq
      exact_mod_cast heq.symm
    exact (h.sound.slots k d).inj hn (hsame ▸ hn')
  pages := h.sound.pages.imp fun pool₀ pool hpool => ⟨hpool.1, hpool.2.partition⟩
  count k d := (h.sound.slots k d).total.trans (h.sound.numSlots k d)

/-- The engine steps that keep the slots exclusive. -/
def slotGuard [Xxh3] : EngineState → EngineOp → Bool := EngineState.passGuard slotTest decodeHasRank postHasRank

/-- **Slots and compressed pages are exclusive along every run whose steps pass the slot tests.** -/
theorem slots_exclusive [Xxh3] (config : SchedulerConfig) (x : EngineState)
    (hx : Reachable (engineSystem config) slotGuard x) : SlotsExclusive config x.sched :=
  ((slot_engineRule config).invariant.holds hx).holds.exclusive

section runs

attribute [local instance] codeHash

/-- Two ranks, with compressed pages for three short sequences. -/
def pagedConfig : SchedulerConfig where
  maxNumSeqs := 8
  maxNumBatchedTokens := 64
  maxModelLen := 100
  attentionDp := 2
  numKvcacheBlocks := 16
  kvcacheBlockSize := 8
  cachePlan :=
    { hcaFlag := true, hca := { compressionRatio := 4, numPages := 3, pageSize := 16, maxBlocksPerSeq := 4 } }

def shortRequest (seqId : ℕ) : EngineOp := .addRequest { seqId := seqId, promptTokenIds := [1, 2, 3] }

/-- The rank and the state slot of a sequence. -/
def rankAndSlot (s : Scheduler) (seqId : ℕ) : Option (ℕ × ℕ) × Option ℤ :=
  (s.cache.seqAssignment seqId, (s.seqTable seqId).map (·.activeStateSlot))

/-- Two sequences on rank 0, with the slots 0 and 1. -/
theorem slots_exclusive_shared_rank : ∃ x, Reachable (engineSystem pagedConfig) slotGuard x ∧
    rankAndSlot x.sched 0 = (some (0, 0), some 0) ∧ rankAndSlot x.sched 2 = (some (0, 0), some 1) ∧
      SlotsExclusive pagedConfig x.sched := by
  obtain ⟨x, hx, hP⟩ := Reachable.exists_of_run (T := engineSystem pagedConfig) (G := slotGuard)
    (P := fun x : EngineState => decide (rankAndSlot x.sched 0 = (some (0, 0), some 0)) &&
      decide (rankAndSlot x.sched 2 = (some (0, 0), some 1)))
    (s := EngineState.init pagedConfig)
    [shortRequest 0, shortRequest 1, shortRequest 2, .step [[[7], [7]], [[7]]] []] rfl (by decide +kernel)
  simp only [Bool.and_eq_true, decide_eq_true_eq] at hP
  exact ⟨x, hx, hP.1, hP.2, slots_exclusive pagedConfig x hx⟩

/-- The pages run out for sequence 3 on rank 1, where it has taken slot 1 already.  Once a page is free it is admitted
on rank 0 with that slot, which sequence 2 holds there. -/
theorem not_slots_exclusive : ¬ ∀ (config : SchedulerConfig) (x : EngineState),
    Reachable (engineSystem config) always x → SlotsExclusive config x.sched := by
  intro h
  obtain ⟨x, hx, hP⟩ := Reachable.exists_of_run (T := engineSystem pagedConfig) (G := always)
    (P := fun x : EngineState => decide (rankAndSlot x.sched 2 = (some (0, 0), some 1)) &&
      decide (rankAndSlot x.sched 3 = (some (0, 0), some 1)))
    (s := EngineState.init pagedConfig)
    [shortRequest 0, shortRequest 1, shortRequest 2, shortRequest 3, .step [] [], .abort 1, .step [[[7]], []] []] rfl
    (by decide +kernel)
  simp only [rankAndSlot, Bool.and_eq_true, decide_eq_true_eq, Prod.mk.injEq, Option.map_eq_some_iff] at hP
  obtain ⟨⟨hrank, seq, hseq, hslot⟩, hrank', seq', hseq', hslot'⟩ := hP
  have hsame := (h pagedConfig x hx).slots .state rfl 2 3 0 0 0 seq seq' hrank hrank' hseq hseq'
    (hslot.trans hslot'.symm)
  cases hsame

end runs

end NanoEngine
