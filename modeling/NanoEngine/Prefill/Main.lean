import NanoEngine.Prefill.Passes

/-!
# NanoEngine.Prefill.Main — a prefill covers its target

Runs of the engine together with `Prefills`, the record of what the runner received.

* `CoverInv`: every recorded run is covered, and the queued sequences are tracked.
* `coverGuard`: `schedule` returns, the runner answers with a row for every sequence, and every try passes `coverTest`.
* `prefill_covers`: under the guard the slices of a completed prefill are its tokens from `start` to the target.
* `not_prefill_covers`: a sequence that is resumed with generated tokens is not covered.
-/

namespace NanoEngine

open Counting Scheduler PrefillState Transition

variable {config : SchedulerConfig}

/-- The engine with the record of its prefills. -/
def prefillSystem [Xxh3] (config : SchedulerConfig) : System (EngineState × Prefills) EngineOp :=
  (engineSystem config).ghost Prefills.init Prefills.follow

structure CoverInv (config : SchedulerConfig) (p : EngineState × Prefills) : Prop where
  calls : CallInv config p.1.ops
  sound : config.mode ≠ .decode → SoundTable p.1.sched
  queues : config.mode ≠ .decode → TrackedQueues p.2 p.1.sched
  covered : ∀ id run, p.2 id = some run → run.Covered

def coverGuard [Xxh3] : EngineState × Prefills → EngineOp → Bool
  | (x, _), .step rows _ => x.answered rows && x.sched.prefillPasses coverTest
  | _, _ => true

namespace CoverInv

variable {x x' : EngineState} {g : Prefills}

theorem event [Xxh3] {op : EngineOp} (h : CoverInv config (x, g)) (hstep : EngineState.Step x op x')
    (hop : ∀ rows logprobs, op ≠ .step rows logprobs) : CoverInv config (x', g) := by
  have hf := EngineState.eventFrame h.calls hstep hop
  exact ⟨h.calls.engineEvent hstep hop, fun hmode => hf.sound (h.sound hmode), fun hmode =>
    hf.tracked (h.queues hmode),
    h.covered⟩

/-- The sequences of a result run, apart from dummies. -/
theorem running_of_filtered {s : Scheduler} {r : ScheduleResult} {L : Finset ℕ}
    (h : CallInv config ⟨s, some r, L⟩) : ∀ id ∈ r.filteredDpGroupSeqIds.flatten, id ∉ s.dummySeqIds →
      ∃ d < s.dp, id ∈ s.running d := by
  intro id hid hreal
  have hlisted : id ∈ r.dpSeqIds.flatten := by
    rw [← List.count_pos_iff, ← (h.grouped r rfl).count id hreal]
    exact List.count_pos_iff.2 hid
  obtain ⟨ids, hids, hmem⟩ := List.mem_flatten.1 hlisted
  obtain ⟨d, hd, hrun⟩ : ∃ d ∈ List.range s.dp, (s.real ids).Nodup ∧
    ∀ id ∈ s.real ids, id ∈ s.running d := by
    have hruns : List.Forall₂ (fun d ids => (s.real ids).Nodup ∧ ∀ id ∈ s.real ids, id ∈ s.running d)
      (List.range s.dp) r.dpSeqIds := h.runs r rfl
    obtain ⟨i, hi, rfl⟩ := List.getElem_of_mem hids
    have hi' : i < (List.range s.dp).length := hruns.length_eq ▸ hi
    exact ⟨_, List.getElem_mem hi', (List.forall₂_iff_get.1 hruns).2 i hi' hi⟩
  exact ⟨d, List.mem_range.1 hd, hrun.2 id (mem_real.2 ⟨hmem, hreal⟩)⟩

/-- An engine step, with what the runner received. -/
theorem step [Xxh3] (h : CoverInv config (x, g)) {rows : List (List (List ℤ))} (logprobs : List (List (List ℚ)))
    (hguard : coverGuard (x, g) (.step rows logprobs) = true) :
    CoverInv config (x.step rows logprobs, Prefills.follow x (.step rows logprobs) (x.step rows logprobs) g) := by
  obtain ⟨hans, hpass⟩ : x.answered rows = true ∧ x.sched.prefillPasses coverTest = true := by
    simpa [coverGuard] using hguard
  obtain ⟨r, s, hs, hrows⟩ := EngineState.exists_of_answered hans
  have hqueue : x.sched.prefillPasses queueTest = true := by
    refine admitPasses_mono (fun st seqId d ranks hW => ?_) hpass
    exact (Bool.and_eq_true _ _ ▸ hW : queueTest st seqId d ranks = true ∧ freshTarget st seqId d ranks = true).1
  have hcalls := h.calls.engineStep hs hqueue hrows logprobs
  have hserved := h.calls.served hs hqueue
  have hsconfig : s.config = config := (h.calls.schedule hqueue hs).config
  have hfollow : Prefills.follow x (.step rows logprobs) (x.step rows logprobs) g =
      if r.isPrefill && !s.isKvOnly r then g.serve x.sched (s.completeSwaps r) r else g := by
    unfold Prefills.follow
    rw [hs]
  rw [hfollow]
  by_cases hmode : config.mode = .decode
  · -- a decode engine computes no prefill
    have hnone : (r.isPrefill && !s.isKvOnly r) = false := by
      unfold isKvOnly
      rw [hsconfig, hmode]
      cases r.isPrefill <;> rfl
    rw [hnone, if_neg Bool.false_ne_true]
    exact ⟨hcalls, fun hne => absurd hmode hne, fun hne => absurd hmode hne, h.covered⟩
  · have hkv : s.isKvOnly r = false := by
      unfold isKvOnly
      rw [hsconfig]
      simp [hmode]
    have hkv' : (s.completeSwaps r).isKvOnly r = false := by
      unfold isKvOnly
      rw [(completeSwaps_frame s r).config, hsconfig]
      simp [hmode]
    have hxmode : x.sched.config.mode ≠ .decode := h.calls.config ▸ hmode
    obtain ⟨hsound, hprefill, hdecode⟩ := schedule_tracked h.calls.one h.calls.reserved h.calls.fresh hxmode
      (h.sound hmode) (h.queues hmode) hpass hs
    have hsound₁ := hsound.completeSwaps r
    -- the record after the batches were handed over
    obtain ⟨hqueues₁, hcovered₁⟩ : TrackedQueues (if r.isPrefill && !s.isKvOnly r then
        g.serve x.sched (s.completeSwaps r) r else g) (s.completeSwaps r) ∧
        ∀ id run, (if r.isPrefill && !s.isKvOnly r then
            g.serve x.sched (s.completeSwaps r) r else g) id = some run → run.Covered := by
      rw [hkv, Bool.not_false, Bool.and_true]
      split
      case isTrue htrue =>
        exact ((hprefill htrue).swapFrame (completeSwaps_frame s r)).serve htrue hsound₁ h.covered
      case isFalse hfalse =>
        exact ⟨(hdecode (by simpa using hfalse)).swapFrame (completeSwaps_frame s r), h.covered⟩
    obtain ⟨hsound₂, hqueues₂⟩ := postprocessImpl_tracked hsound₁ hqueues₁
      (running_of_filtered hserved) rows logprobs
    have hran : (s.completeSwaps r).runScheduled r rows logprobs =
        (s.completeSwaps r).postprocessImpl r.filteredDpGroupSeqIds rows logprobs := by
      unfold runScheduled
      rw [hkv', if_neg Bool.false_ne_true]
    have hf := recordCompleteStep_frame ((s.completeSwaps r).runScheduled r rows logprobs) r.dpSeqIds x.trackRunning
      x.previousRunning
    rw [hran] at hf
    refine ⟨hcalls, fun _ => ?_, fun _ => ?_, hcovered₁⟩
    · rw [EngineState.step_sched hs, hran]
      intro id b hb
      cases ha : ((s.completeSwaps r).postprocessImpl r.filteredDpGroupSeqIds rows logprobs).seqTable id with
      | none =>
        rw [hf.table.missing id ha] at hb
        cases hb
      | some a =>
        obtain ⟨b', hb', hab⟩ := hf.table.entry id a ha
        obtain rfl := Option.some.inj (hb'.symm.trans hb)
        have hsound := hsound₂ id a ha
        obtain rfl | rfl := hab
        · exact hsound
        · exact ⟨hsound.seqId, hsound.target, hsound.host⟩
    · rw [EngineState.step_sched hs, hran]
      refine hqueues₂.table hf.toSameQueues hf.table fun a b hab id ht => ?_
      obtain rfl | rfl := hab
      · exact ht
      · exact ht

end CoverInv

/-! ## Runs -/

section runs

variable [Xxh3]

theorem coverInv_invariant (config : SchedulerConfig) :
    Invariant (prefillSystem config) coverGuard (CoverInv config) where
  initial := by
    rintro ⟨x, g⟩ ⟨rfl, rfl⟩
    refine ⟨CallInv.init config, fun _ id a ha => ?_, fun _ d _ id hid => ?_, fun id run hrun => ?_⟩
    · cases ha
    · rcases hid with hid | hid <;> cases hid
    · cases hrun
  next := by
    rintro ⟨x, g⟩ op p' h hguard hnext
    obtain ⟨x', hx', rfl⟩ := Option.map_eq_some_iff.1 hnext
    have hstep := EngineState.step_of_next hx'
    by_cases hop : ∃ rows logprobs, op = .step rows logprobs
    · obtain ⟨rows, logprobs, rfl⟩ := hop
      cases hstep
      exact h.step logprobs hguard
    · have hne : ∀ rows logprobs, op ≠ .step rows logprobs :=
        fun rows logprobs heq => hop ⟨rows, logprobs, heq⟩
      have hfollow : Prefills.follow x op x' g = g := by
        cases op with
        | step rows logprobs => exact absurd rfl (hne rows logprobs)
        | _ => rfl
      rw [show (engineSystem config).next x op = x.next op from rfl] at hx'
      dsimp only
      rw [hfollow]
      exact h.event hstep hne

/-- **A prefill covers its target.**  Once a sequence has reached its target, the slices that the runner received since
its admission at `start` are its tokens from `start` to the target, at these positions; only the slice that ends at the
target is sampled. -/
theorem prefill_covers (config : SchedulerConfig) (p : EngineState × Prefills)
    (hp : Reachable (prefillSystem config) coverGuard p) (seqId : ℕ) (run : PrefillRun)
    (hrun : p.2 seqId = some run) :
    (run.target ≤ run.numTokens →
      run.inputIds = (run.tokenIds.take run.target.toNat).drop run.start.toNat ∧
      run.positions = List.range' run.start.toNat (run.target.toNat - run.start.toNat) ∧
      ∀ row ∈ run.rows.dropLast, row.sample = false) ∧
    (run.numTokens < run.target → ∀ row ∈ run.rows, row.sample = false) := by
  have hcovered := ((coverInv_invariant config).holds hp).covered seqId run hrun
  refine ⟨fun hdone => ?_, hcovered.unfinished⟩
  have heq : run.numTokens = run.target := by
    have := hcovered.within
    omega
  refine ⟨?_, ?_, hcovered.early⟩
  · rw [← heq]
    exact hcovered.inputIds
  · rw [← heq]
    exact hcovered.positions

end runs

/-! ## Evaluated runs -/

section evaluated

attribute [local instance] codeHash

/-- A budget of four tokens a step. -/
def slicedConfig : SchedulerConfig where
  maxNumSeqs := 8
  maxNumBatchedTokens := 4
  maxModelLen := 100
  numKvcacheBlocks := 8
  kvcacheBlockSize := 4

def promptOf (seqId : ℕ) : EngineOp :=
  .addRequest { seqId := seqId, promptTokenIds := [1, 2, 3, 4, 5, 6, 10 + seqId] }

/-- A prompt of seven tokens in two slices. -/
theorem prefill_covers_sliced : ∃ p run, Reachable (prefillSystem slicedConfig) coverGuard p ∧ p.2 0 = some run ∧
    run.rows.length = 2 ∧ run.inputIds = [1, 2, 3, 4, 5, 6, 10] := by
  obtain ⟨p, hp, hP⟩ := Reachable.exists_of_run (T := prefillSystem slicedConfig) (G := coverGuard)
    (P := fun p : EngineState × Prefills =>
      ((p.2 0).map fun run : PrefillRun => decide (run.rows.length = 2) && decide (run.target = 7) &&
      decide (run.numTokens = 7) && decide (run.start = 0) &&
        decide (run.tokenIds = [1, 2, 3, 4, 5, 6, 10])).getD false)
    (s := (EngineState.init slicedConfig, Prefills.init))
    [promptOf 0, .step [[[9]]] [], .step [[[9]]] []] ⟨rfl, rfl⟩ (by decide +kernel)
  cases hrun : p.2 0 with
  | none =>
    rw [hrun] at hP
    cases hP
  | some run =>
    rw [hrun] at hP
    simp only [Option.map_some, Option.getD_some, Bool.and_eq_true, decide_eq_true_eq] at hP
    obtain ⟨⟨⟨⟨hlen, htarget⟩, hnum⟩, hstart⟩, htokens⟩ := hP
    have h := ((prefill_covers slicedConfig p hp 0 run hrun).1 (by omega)).1
    rw [htokens, htarget, hstart] at h
    exact ⟨p, run, hp, hrun, hlen, h⟩

/-- The steps that return and are answered. -/
def answeredGuard : EngineState × Prefills → EngineOp → Bool
  | (x, _), .step rows _ => x.answered rows
  | _, _ => true

/-- Sequence `0` is preempted with one generated token and admitted again with four cached ones: its target is eight,
but the packer stops at the seven tokens of the prompt. -/
theorem not_prefill_covers : ¬ ∀ (config : SchedulerConfig) (p : EngineState × Prefills),
    Reachable (prefillSystem config) answeredGuard p → ∀ (seqId : ℕ) (run : PrefillRun), p.2 seqId = some run →
      run.target ≤ run.numTokens → run.inputIds = (run.tokenIds.take run.target.toNat).drop run.start.toNat := by
  intro h
  obtain ⟨p, hp, hP⟩ := Reachable.exists_of_run (T := prefillSystem crowdedConfig) (G := answeredGuard)
    (P := fun p : EngineState × Prefills =>
      ((p.2 0).map fun run : PrefillRun => decide (run.target ≤ run.numTokens) &&
      decide (run.inputIds ≠ (run.tokenIds.take run.target.toNat).drop run.start.toNat)).getD false)
    (s := (EngineState.init crowdedConfig, Prefills.init))
    [promptOf 0, .step [[[5]]] [], promptOf 1, .step [[]] [], .abort 1, .step [[[6]]] []]
      ⟨rfl, rfl⟩ (by decide +kernel)
  cases hrun : p.2 0 with
  | none =>
    rw [hrun] at hP
    cases hP
  | some run =>
    rw [hrun] at hP
    simp only [Option.map_some, Option.getD_some, Bool.and_eq_true, decide_eq_true_eq] at hP
    exact hP.2 (h crowdedConfig p hp 0 run hrun hP.1)

end evaluated

end NanoEngine
