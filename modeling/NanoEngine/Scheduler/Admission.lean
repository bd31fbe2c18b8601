import Mathlib.Logic.Relation
import NanoEngine.Scheduler.Frame

/-!
# NanoEngine.Scheduler.Admission — what one admission can do

* `TryCase`: the outcomes of `try_allocate_prefill` that are not an error, with the states in between.
* `BeginsAdmission`, `RequeuesEntry`, `RestoresEntry`: what admission, preemption and restore write into a sequence.
* `Preempted`: what a preemption does to the queues.
-/

namespace NanoEngine

namespace Scheduler

variable [Xxh3]

/-! ## One try -/

/-- The reservation of a try fails: the scheduler after the failed admission is undone. -/
def failedAdmission (s : Scheduler) (seqId dpIdx : ℕ) (batchSeqs batchTokens : ℕ → ℤ) : Option Scheduler :=
  match s.prepareAdmission seqId dpIdx batchSeqs batchTokens with
  | (none, _) => none
  | (some a, s) =>
    match s.reserveAdmission seqId dpIdx a with
    | (.error _, s) => some (s.cancelAdmission seqId)
    | (.ok (), _) => none

/-- The sequence that a try preempts. -/
def admissionVictim (s : Scheduler) (seqId dpIdx : ℕ) (batchSeqs batchTokens : ℕ → ℤ) : Option ℕ :=
  (s.failedAdmission seqId dpIdx batchSeqs batchTokens).bind (fun s => s.preemptVictim dpIdx seqId)

/-- The outcomes of `try_allocate_prefill` without an error. -/
inductive TryCase (s : Scheduler) (seqId dpIdx : ℕ) (batchSeqs batchTokens : ℕ → ℤ) :
    Option ℤ → Scheduler → Prop
  | refused {s' : Scheduler} (prepared : s.prepareAdmission seqId dpIdx batchSeqs batchTokens = (none, s')) :
      TryCase s seqId dpIdx batchSeqs batchTokens none s'
  | preempted {a : Admission} {s₁ s₂ : Scheduler} {e : PyErr} {victim : ℕ}
      (prepared : s.prepareAdmission seqId dpIdx batchSeqs batchTokens = (some a, s₁))
      (reserved : s₁.reserveAdmission seqId dpIdx a = (.error e, s₂))
      (chosen : (s₂.cancelAdmission seqId).preemptVictim dpIdx seqId = some victim) :
      TryCase s seqId dpIdx batchSeqs batchTokens none ((s₂.cancelAdmission seqId).preemptImpl dpIdx victim)
  | admitted {a : Admission} {s₁ s₂ s₃ : Scheduler}
      (prepared : s.prepareAdmission seqId dpIdx batchSeqs batchTokens = (some a, s₁))
      (reserved : s₁.reserveAdmission seqId dpIdx a = (.ok (), s₂))
      (finished : s₂.finishAdmission seqId a.master a.fullLen a.cached = (.ok (), s₃)) :
      TryCase s seqId dpIdx batchSeqs batchTokens (some a.newTokens) s₃

theorem tryAllocatePrefill_cases {s s' : Scheduler} {seqId dpIdx : ℕ}
    {batchSeqs batchTokens : ℕ → ℤ} {r : Option ℤ}
    (h : s.tryAllocatePrefill seqId dpIdx batchSeqs batchTokens = (.ok r, s')) :
    TryCase s seqId dpIdx batchSeqs batchTokens r s' := by
  unfold tryAllocatePrefill at h
  split at h
  case h_1 s₁ hprep =>
    cases h
    exact .refused hprep
  case h_2 a s₁ hprep =>
    split at h
    case h_1 e s₂ hres =>
      unfold preemptOneForAllocation at h
      cases hv : (s₂.cancelAdmission seqId).preemptVictim dpIdx seqId with
      | none => rw [hv] at h; cases h
      | some victim =>
        rw [hv] at h
        cases h
        exact .preempted hprep hres hv
    case h_2 s₂ hres =>
      split at h
      case h_1 => cases h
      case h_2 s₃ hfin =>
        cases h
        exact .admitted hprep hres hfin

/-! ### The parts of a try -/

theorem admissionCached_frame (s : Scheduler) (seqId : ℕ) (seq : Sequence) (dpIdx master : ℕ) :
    Frame Sequence.RecordsCached seqId s (s.admissionCached seqId seq dpIdx master).2 := by
  unfold admissionCached
  split
  · exact Frame.of_setCache_updateSeq s _ _ fun a => ⟨_, _, rfl⟩
  · exact Frame.refl Sequence.RecordsCached.refl s

/-- What is known when the admission goes on to reserve blocks. -/
structure Prepared (s : Scheduler) (seqId dpIdx : ℕ) (batchSeqs batchTokens : ℕ → ℤ)
    (seq : Sequence) (a : Admission) :
    Prop where
  entry : s.seqTable seqId = some seq
  slots : s.slotsExhausted seqId dpIdx = false
  group : s.chooseMasterGroup dpIdx batchSeqs batchTokens = some a.master
  fullLen : a.fullLen = s.fullLen seq
  cached : a.cached = (s.admissionCached seqId seq dpIdx a.master).1
  newTokens : a.newTokens = s.newPrefillTokens a.fullLen a.cached
    (max (max s.config.maxNumBatchedTokens 1 - batchTokens a.master) 0)
  pos : 0 < a.newTokens

theorem prepareAdmission_some {s s' : Scheduler} {seqId dpIdx : ℕ}
    {batchSeqs batchTokens : ℕ → ℤ} {a : Admission}
    (h : s.prepareAdmission seqId dpIdx batchSeqs batchTokens = (some a, s')) :
    ∃ seq, Prepared s seqId dpIdx batchSeqs batchTokens seq a ∧
      s' = (s.admissionCached seqId seq dpIdx a.master).2 := by
  unfold prepareAdmission at h
  split at h
  case h_1 => cases h
  case h_2 seq hseq =>
    split at h
    case isTrue => cases h
    case isFalse hslots =>
      split at h
      case h_1 => cases h
      case h_2 master hmaster =>
        dsimp only at h
        split at h
        case isTrue => cases h
        case isFalse =>
          split at h
          case isTrue => cases h
          case isFalse hpos =>
            cases h
            exact ⟨seq, ⟨hseq, by simpa using hslots, hmaster, rfl, rfl, rfl, by simpa using hpos⟩, rfl⟩

/-- A refused try has at most asked the prefix cache. -/
theorem prepareAdmission_none {s s' : Scheduler} {seqId dpIdx : ℕ} {batchSeqs batchTokens : ℕ → ℤ}
    (h : s.prepareAdmission seqId dpIdx batchSeqs batchTokens = (none, s')) :
    s' = s ∨ ∃ seq master, s.seqTable seqId = some seq ∧ s' = (s.admissionCached seqId seq dpIdx master).2 := by
  unfold prepareAdmission at h
  split at h
  case h_1 => cases h; exact .inl rfl
  case h_2 seq hseq =>
    split at h
    case isTrue => cases h; exact .inl rfl
    case isFalse =>
      split at h
      case h_1 => cases h; exact .inl rfl
      case h_2 master hmaster =>
        dsimp only at h
        split at h
        case isTrue => cases h; exact .inr ⟨seq, master, hseq, rfl⟩
        case isFalse =>
          split at h
          case isTrue => cases h; exact .inr ⟨seq, master, hseq, rfl⟩
          case isFalse => cases h

theorem prepareAdmission_frame (s : Scheduler) (seqId dpIdx : ℕ) (batchSeqs batchTokens : ℕ → ℤ) :
    Frame Sequence.RecordsCached seqId s (s.prepareAdmission seqId dpIdx batchSeqs batchTokens).2 := by
  rcases h : s.prepareAdmission seqId dpIdx batchSeqs batchTokens with ⟨_ | a, s'⟩
  · rcases prepareAdmission_none h with rfl | ⟨seq, master, -, rfl⟩
    · exact Frame.refl Sequence.RecordsCached.refl _
    · exact admissionCached_frame _ _ _ _ _
  · obtain ⟨seq, -, rfl⟩ := prepareAdmission_some h
    exact admissionCached_frame _ _ _ _ _

/-- The fields that an admission writes into its sequence. -/
structure BeginsAdmission (s : Scheduler) (a : Admission) (x y : Sequence) : Prop
    extends Sequence.KeepsRequest x y where
  status : y.status = .running
  numCachedTokens : y.numCachedTokens = x.numCachedTokens
  decode : s.config.mode = .decode → y.numTokens = x.numTokens ∧ y.prefillStartOffset = x.prefillStartOffset
  prefill : s.config.mode ≠ .decode → y.numTokens = a.cached + a.newTokens ∧ y.prefillStartOffset = a.cached

omit [Xxh3] in
theorem beginAdmission_frame (s : Scheduler) (seqId dpIdx : ℕ) (a : Admission) (dispatch : List ℤ) :
    Frame (BeginsAdmission s a) seqId s
      (s.beginAdmission seqId dpIdx a.master a.cached (a.cached + a.newTokens) dispatch) := by
  unfold beginAdmission
  refine Frame.of_setCache_updateSeq s _ _ fun x => ?_
  by_cases hmode : s.config.mode = .decode
  · simp only [setCache, hmode, if_true]
    exact ⟨⟨⟨rfl, rfl, rfl, rfl, rfl, rfl, rfl⟩, rfl, rfl, rfl, rfl, rfl⟩, rfl, rfl, fun _ => ⟨rfl, rfl⟩,
      fun h => absurd hmode h⟩
  · simp only [setCache, hmode, if_false]
    exact ⟨⟨⟨rfl, rfl, rfl, rfl, rfl, rfl, rfl⟩, rfl, rfl, rfl, rfl, rfl⟩, rfl, rfl,
      fun h => absurd h hmode, fun _ => ⟨rfl, rfl⟩⟩

omit [Xxh3] in
theorem BeginsAdmission.keeps {s : Scheduler} {a : Admission} {x y z : Sequence}
    (h : BeginsAdmission s a x y) (k : Sequence.KeepsHost y z) : BeginsAdmission s a x z where
  toKeepsRequest := h.toKeepsRequest.trans k.keepsRequest
  status := k.status.trans h.status
  numCachedTokens := k.numCachedTokens.trans h.numCachedTokens
  decode := fun hm => ⟨k.numTokens.trans (h.decode hm).1, k.prefillStartOffset.trans (h.decode hm).2⟩
  prefill := fun hm => ⟨k.numTokens.trans (h.prefill hm).1, k.prefillStartOffset.trans (h.prefill hm).2⟩

theorem reserveAdmission_frame (s : Scheduler) (seqId dpIdx : ℕ) (a : Admission) :
    Frame (BeginsAdmission s a) seqId s (s.reserveAdmission seqId dpIdx a).2 :=
  (beginAdmission_frame s seqId dpIdx a _).comp (ensureDispatched_frame _ _ _ _ _) fun _ _ _ h k => h.keeps k

omit [Xxh3] in
theorem cancelAdmission_frame (s : Scheduler) (seqId : ℕ) :
    Frame (fun x y => Sequence.KeepsRequest x y ∧ y.status = .waiting) seqId s (s.cancelAdmission seqId) := by
  unfold cancelAdmission
  exact Frame.of_setCache_updateSeq s _ _ fun _ =>
    ⟨⟨⟨rfl, rfl, rfl, rfl, rfl, rfl, rfl⟩, rfl, rfl, rfl, rfl, rfl⟩, rfl⟩

/-! ### Preemption -/

/-- What a preemption writes into its victim. -/
structure RequeuesEntry (x y : Sequence) : Prop extends Sequence.KeepsTokens x y where
  status : y.status = .waiting
  numTokens : y.numTokens = x.tokenIds.length
  numCheckpointedTokens : y.numCheckpointedTokens = x.tokenIds.length
  prefillStartOffset : y.prefillStartOffset = 0
  numCachedTokens : y.numCachedTokens = x.numCachedTokens
  lastScheduledStep : y.lastScheduledStep = x.lastScheduledStep

/-- A preemption moves its victim from `running` to one end of `waiting`. -/
structure Preempted (dpIdx victim : ℕ) (s s' : Scheduler) : Prop where
  config : s'.config = s.config
  waiting : s'.waiting = victim :: s.waiting ∨ s'.waiting = s.waiting ++ [victim]
  waitingMigration : s'.waitingMigration = s.waitingMigration
  running : s'.running = (s.dropRunning dpIdx victim).running
  prefilling : s'.prefilling = s.prefilling
  toBeMigrated : s'.toBeMigrated = s.toBeMigrated
  dummySeqIds : s'.dummySeqIds = s.dummySeqIds
  currentStep : s'.currentStep = s.currentStep
  lastStepTokenIds : s'.lastStepTokenIds = s.lastStepTokenIds
  others : ∀ id, id ≠ victim → s'.seqTable id = s.seqTable id
  missing : s.seqTable victim = none → s'.seqTable victim = none
  entry : ∀ a, s.seqTable victim = some a → ∃ b, s'.seqTable victim = some b ∧ RequeuesEntry a b

theorem preemptImpl_spec (s : Scheduler) (dpIdx victim : ℕ) :
    Preempted dpIdx victim s (s.preemptImpl dpIdx victim) := by
  have h₁ : Frame RequeuesEntry victim s (s.updateSeq victim Sequence.requeue) :=
    Frame.of_updateSeq _ _ fun _ => ⟨⟨rfl, rfl, rfl, rfl, rfl, rfl, rfl⟩, rfl, rfl, rfl, rfl, rfl, rfl⟩
  have h₂ := h₁.comp (cachePrepareHostSwapOut_frame _ victim) (T := RequeuesEntry) fun x y z hxy hyz =>
    ⟨hxy.toKeepsTokens.trans hyz.keepsTokens, hyz.status.trans hxy.status, hyz.numTokens.trans hxy.numTokens,
      hyz.numCheckpointedTokens.trans hxy.numCheckpointedTokens, hyz.prefillStartOffset.trans hxy.prefillStartOffset,
      hyz.numCachedTokens.trans hxy.numCachedTokens, hyz.lastScheduledStep.trans hxy.lastScheduledStep⟩
  unfold preemptImpl
  split
  case h_1 s₂ heq =>
    rw [heq] at h₂
    replace h₂ : Frame RequeuesEntry victim s s₂ := h₂
    exact
      { h₂ with
        waiting := .inr (by simp [dropRunning, h₂.waiting])
        running := by simp [dropRunning, h₂.running] }
  case h_2 s₂ heq =>
    rw [heq] at h₂
    replace h₂ : Frame RequeuesEntry victim s s₂ := h₂
    exact
      { h₂ with
        waiting := .inl (by simp [dropRunning, releaseSeq, setCache, h₂.waiting])
        running := by simp [dropRunning, releaseSeq, setCache, h₂.running] }

omit [Xxh3] in
/-- The victim runs on the rank, is not the sequence to admit and is no dummy. -/
theorem preemptVictim_mem {s : Scheduler} {dpIdx excludeSeqId victim : ℕ}
    (h : s.preemptVictim dpIdx excludeSeqId = some victim) :
    victim ∈ s.running dpIdx ∧ victim ≠ excludeSeqId ∧ victim ∉ s.dummySeqIds := by
  have hmem := bestBy_mem h
  simpa [and_assoc] using hmem

/-! ### Admitted and refused sequences -/

omit [Xxh3] in
theorem chooseMasterGroup_some {s : Scheduler} {dpIdx master : ℕ} {batchSeqs batchTokens : ℕ → ℤ}
    (h : s.chooseMasterGroup dpIdx batchSeqs batchTokens = some master) :
    master < s.group ∧ batchSeqs master < max s.config.maxNumSeqs 1 := by
  unfold chooseMasterGroup at h
  have hmem := List.mem_of_find?_eq_some h
  have hlt := List.find?_some h
  rw [List.mem_insertionSort, List.mem_range] at hmem
  exact ⟨hmem, by simpa using hlt⟩

/-- An admission as a whole: the queues stay, the sequence gets the fields of its admission. -/
theorem TryCase.admitted_frame {s s₁ s₂ s₃ : Scheduler} {seqId dpIdx : ℕ} {batchSeqs batchTokens : ℕ → ℤ}
    {a : Admission} (hprep : s.prepareAdmission seqId dpIdx batchSeqs batchTokens = (some a, s₁))
    (hres : s₁.reserveAdmission seqId dpIdx a = (.ok (), s₂))
    (hfin : s₂.finishAdmission seqId a.master a.fullLen a.cached = (.ok (), s₃)) :
    Frame (fun x y => ∃ z, Sequence.RecordsCached x z ∧ BeginsAdmission s a z y ∧ y.activeGroupId = a.master)
      seqId s s₃ := by
  have hf₁ := prepareAdmission_frame s seqId dpIdx batchSeqs batchTokens
  rw [hprep] at hf₁
  have hf₂ := reserveAdmission_frame s₁ seqId dpIdx a
  rw [hres] at hf₂
  have hf₃ := finishAdmission_frame s₂ seqId a.master a.fullLen a.cached
  rw [hfin] at hf₃
  refine hf₁.comp (hf₂.comp hf₃ (T := fun x y => BeginsAdmission s₁ a x y ∧ y.activeGroupId = a.master)
    fun x y z hxy hyz => ⟨hxy.keeps hyz.toKeepsHost, hyz.activeGroupId⟩) fun x y z hxy hyz =>
      ⟨y, hxy, ?_, hyz.2⟩
  have hconfig : s₁.config = s.config := hf₁.config
  exact ⟨hyz.1.toKeepsRequest, hyz.1.status, hyz.1.numCachedTokens, hconfig ▸ hyz.1.decode,
    hconfig ▸ hyz.1.prefill⟩

/-- A failed reservation, undone: the queues stay, the sequence waits again. -/
theorem TryCase.cancelled_frame {s s₁ s₂ : Scheduler} {seqId dpIdx : ℕ} {batchSeqs batchTokens : ℕ → ℤ}
    {a : Admission} {e : PyErr} (hprep : s.prepareAdmission seqId dpIdx batchSeqs batchTokens = (some a, s₁))
    (hres : s₁.reserveAdmission seqId dpIdx a = (.error e, s₂)) :
    Frame (fun x y => Sequence.KeepsRequest x y ∧ y.status = .waiting) seqId s (s₂.cancelAdmission seqId) := by
  have hf₁ := prepareAdmission_frame s seqId dpIdx batchSeqs batchTokens
  rw [hprep] at hf₁
  have hf₂ := reserveAdmission_frame s₁ seqId dpIdx a
  rw [hres] at hf₂
  refine hf₁.comp (hf₂.comp (cancelAdmission_frame s₂ seqId) (T := fun x y =>
    Sequence.KeepsRequest x y ∧ y.status = .waiting) fun x y z hxy hyz => ⟨hxy.toKeepsRequest.trans hyz.1, hyz.2⟩)
    fun x y z hxy hyz => ⟨hxy.keepsRequest.trans hyz.1, hyz.2⟩

/-! ### Restore -/

/-- A restore that gives up changes nothing. -/
theorem cacheTryRestoreHostBlocks_false {s s' : Scheduler} {seqId dpIdx : ℕ}
    (h : s.cacheTryRestoreHostBlocks seqId dpIdx = (.ok false, s')) : s' = s := by
  unfold cacheTryRestoreHostBlocks at h
  split at h
  · cases h; rfl
  · dsimp only at h
    split at h
    · cases h; rfl
    · split at h
      · cases h; rfl
      · split at h
        · cases h; rfl
        · split at h <;> cases h

/-- What a restore writes into its sequence. -/
structure RestoresEntry (x y : Sequence) : Prop extends Sequence.KeepsRequest x y where
  status : y.status = .running
  numTokens : y.numTokens = x.numTokens
  numCachedTokens : y.numCachedTokens = x.numCachedTokens
  prefillStartOffset : y.prefillStartOffset = x.prefillStartOffset

theorem cacheTryRestoreHostBlocks_true {s s' : Scheduler} {seqId dpIdx : ℕ}
    (h : s.cacheTryRestoreHostBlocks seqId dpIdx = (.ok true, s')) : Frame RestoresEntry seqId s s' := by
  unfold cacheTryRestoreHostBlocks at h
  split at h
  · cases h
  · dsimp only at h
    split at h
    · cases h
    · split at h
      · cases h
      · split at h
        · cases h
        · split at h
          · cases h
          · cases h
            refine (Frame.of_setCache_updateSeq s _ _ fun _ => ?_).comp (HostFrame.cache _ _) (R := RestoresEntry)
              fun x y z hxy hyz => ?_
            · exact ⟨⟨⟨rfl, rfl, rfl, rfl, rfl, rfl, rfl⟩, rfl, rfl, rfl, rfl, rfl⟩, rfl, rfl, rfl, rfl⟩
            · exact ⟨hxy.toKeepsRequest.trans hyz.keepsRequest, hyz.status.trans hxy.status,
                hyz.numTokens.trans hxy.numTokens, hyz.numCachedTokens.trans hxy.numCachedTokens,
                hyz.prefillStartOffset.trans hxy.prefillStartOffset⟩

/-! ### Routing -/

omit [Xxh3] in
theorem routeCandidates_lt (s : Scheduler) (seqId : ℕ) : ∀ d ∈ (s.routeCandidates seqId).1, d < s.dp := by
  have hdp : 1 ≤ s.dp := s.config.one_le_dp
  have hsort : ∀ (r : ℕ → ℕ → Prop) [DecidableRel r] (d : ℕ),
    d ∈ (List.range s.dp).insertionSort r → d < s.dp :=
    fun r _ d hd => List.mem_range.1 ((List.mem_insertionSort r).1 hd)
  intro d hd
  unfold routeCandidates at hd
  dsimp only at hd
  split at hd
  · exact hsort _ d hd
  · exact hsort _ d hd
  · exact hsort _ d hd
  · split at hd
    · exact hsort _ d hd
    · split at hd
      · exact hsort _ d hd
      · split at hd
        · simp only [List.mem_singleton] at hd
          omega
        · rcases List.mem_cons.1 hd with rfl | hd
          · omega
          · exact hsort _ d (List.mem_of_mem_filter hd)
  · exact List.mem_range.1 hd

omit [Xxh3] in
theorem routeCandidates_seqTable (s : Scheduler) (seqId : ℕ) : (s.routeCandidates seqId).2.seqTable = s.seqTable := by
  unfold routeCandidates
  dsimp only
  split
  case h_4 =>
    split
    · rfl
    · split
      · rfl
      · split <;> rfl
  all_goals rfl

omit [Xxh3] in
/-- The router moves its cursor and the waiting time of the sequence only. -/
theorem routeCandidates_frame (s : Scheduler) (seqId id : ℕ) : CacheFrame id s (s.routeCandidates seqId).2 := by
  have hrefl : CacheFrame id s s := .refl s
  unfold routeCandidates
  dsimp only
  split
  · exact
      { SameQueues.refl s with
        others := fun _ _ => rfl
        missing := fun h => h
        entry := fun a ha => ⟨a, ha, .refl a⟩ }
  · exact hrefl
  · exact hrefl
  · split
    · exact hrefl
    · split
      · exact hrefl
      · split <;> exact .cache s _
  · exact hrefl

end Scheduler

end NanoEngine
