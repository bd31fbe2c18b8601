import NanoEngine.Prefill.Main
import NanoEngine.Prefill.Partial

/-!
# NanoEngine.Prefill.BudgetMain — the prefill token budget is respected

Runs of the engine with one group that is no decode engine.

* `budgetGuard`: a step is answered, its tries pass `budgetTest` and no chunked prefill has left its prompt.
* `PartialInv`: between steps a rank has one partially prefilled sequence.
* `prefill_budget`: every batch of a prefill is within the budget, and the partial sequence of a rank was its last row.
* `not_prefill_budget`: a sequence that is preempted in the step of its chunk is packed beyond the budget.
-/

namespace NanoEngine

open Counting Scheduler PrefillState Transition

variable {config : SchedulerConfig}

namespace Scheduler

/-- The partially prefilled sequences of a rank. -/
def partials (s : Scheduler) (d : ℕ) : List ℕ :=
  (s.running d ++ s.prefilling d).filter fun id =>
    ((s.seqTable id).map fun a => decide (a.numTokens < promptTarget a)).getD false

theorem mem_partials {s : Scheduler} {d id : ℕ} :
    id ∈ s.partials d ↔ (id ∈ s.running d ∨ id ∈ s.prefilling d) ∧
    ∃ a, s.seqTable id = some a ∧ a.numTokens < promptTarget a := by
  unfold partials
  rw [List.mem_filter, List.mem_append]
  cases s.seqTable id <;> simp

end Scheduler

/-- A sequence that runs on a rank is no dummy. -/
theorem CallInv.running_real {x : OpState} (h : CallInv config x) :
    ∀ d < x.sched.dp, ∀ id ∈ x.sched.running d, id ∉ x.sched.dummySeqIds := by
  intro d hd id hid hdummy
  have hpos : 0 < queueCount x.sched id + ([] : List ℕ).count id := by
    have := List.count_pos_iff.2 hid
    have := count_running_le hd id
    omega
  have hfresh := h.fresh id (h.one.live_of_pos hpos).1
  rw [h.reserved id hdummy] at hfresh
  cases hfresh

/-- The partial sequences of a rank are those in the middle of a chunked prefill. -/
theorem OnePartial.partials_eq {s : Scheduler} (h : OnePartial s) {d : ℕ} (hd : d < s.dp) :
    (s.partials d).length ≤ 1 ∧ ∀ id ∈ s.partials d, id ∈ s.prefilling d := by
  have hmem : ∀ id ∈ s.partials d, id ∈ s.prefilling d := by
    intro id hid
    obtain ⟨hqueued, a, ha, hlt⟩ := mem_partials.1 hid
    refine hqueued.resolve_left fun hrun => ?_
    have := h.complete d hd id hrun a ha
    omega
  refine ⟨?_, hmem⟩
  have hnone : (s.running d).filter (fun id =>
      ((s.seqTable id).map fun a => decide (a.numTokens < promptTarget a)).getD false) = [] := by
    refine List.filter_eq_nil_iff.2 fun id hid => ?_
    cases ha : s.seqTable id with
    | none => simp
    | some a =>
      have := h.complete d hd id hid a ha
      simpa using this
  unfold partials
  rw [List.filter_append, hnone, List.nil_append]
  exact (List.length_filter_le _ _).trans (h.one d hd)

structure PartialInv (config : SchedulerConfig) (x : EngineState) : Prop where
  calls : CallInv config x.ops
  one : OnePartial x.sched

/-- No try of the step's admissions fails `budgetTest`, and the chunked prefills are inside their prompts. -/
def EngineState.budgeted [Xxh3] (x : EngineState) : Bool :=
  x.sched.prefillPasses budgetTest && x.sched.continuesInPrompt

def budgetGuard [Xxh3] : EngineState → EngineOp → Bool
  | x, .step rows _ => x.answered rows && x.budgeted
  | _, _ => true

namespace PartialInv

variable {x x' : EngineState} {r : ScheduleResult} {s : Scheduler}

theorem event [Xxh3] {op : EngineOp} (h : PartialInv config x) (hstep : EngineState.Step x op x')
    (hop : ∀ rows logprobs, op ≠ .step rows logprobs) : PartialInv config x' := by
  have hf := EngineState.eventFrame h.calls hstep hop
  have hdp : x'.sched.dp = x.sched.dp := congrArg SchedulerConfig.dp hf.config
  refine ⟨h.calls.engineEvent hstep hop, hf.sound h.one.sound, fun d hd id hid b hb => ?_, fun d hd => ?_,
    fun d hd id hid b hb => ?_⟩
  · have hold := (hf.running d).subset hid
    obtain ⟨a, ha, hab⟩ := hf.entry d (hdp ▸ hd) id (.inl hold) b hb
    rw [hab.target, hab.numTokens]
    exact h.one.complete d (hdp ▸ hd) id hold a ha
  · exact (hf.prefilling d).length_le.trans (h.one.one d (hdp ▸ hd))
  · have hold := (hf.prefilling d).subset hid
    obtain ⟨a, ha, hab⟩ := hf.entry d (hdp ▸ hd) id (.inr hold) b hb
    rw [hab.target, hab.numTokens]
    exact h.one.below d (hdp ▸ hd) id hold a ha

variable [Xxh3]

/-- The result that is serialized. -/
theorem result (h : PartialInv config x) (hmode : config.mode ≠ .decode) (hgroup : config.group = 1)
    (hbudget : x.budgeted = true) (hs : x.sched.schedule = (.ok r, s)) :
    BudgetResult (s.completeSwaps r) r ∧ CallInv config ⟨s.completeSwaps r, some r, x.live⟩ := by
  obtain ⟨hpass, hcont⟩ := Bool.and_eq_true _ _ ▸ hbudget
  have hqueue : x.sched.prefillPasses queueTest = true :=
    admitPasses_mono (fun st seqId d ranks hW => (Bool.and_eq_true _ _ ▸ hW :
      queueTest st seqId d ranks = true ∧ startsInPrompt st seqId d ranks = true).1) hpass
  have hconfig : x.sched.config = config := h.calls.config
  have hresult := schedule_budget h.calls.one h.calls.reserved h.calls.fresh (hconfig ▸ hmode)
    ((congrArg SchedulerConfig.group hconfig).trans hgroup) h.one hcont hpass hs
  exact ⟨hresult.completeSwaps, h.calls.served hs hqueue⟩

/-- A step leaves one partial sequence a rank, the last row of its batch. -/
theorem step (h : PartialInv config x) (hmode : config.mode ≠ .decode) (hgroup : config.group = 1)
    {rows : List (List (List ℤ))} (logprobs : List (List (List ℚ)))
    (hguard : budgetGuard x (.step rows logprobs) = true) :
    PartialInv config (x.step rows logprobs) ∧
      ∀ d < x.sched.dp, ∀ id ∈ (x.step rows logprobs).sched.prefilling d,
      ∃ r s batch, x.sched.schedule = (.ok r, s) ∧ r.isPrefill = true ∧
        ((s.completeSwaps r).serializeRunBatches r)[d]? = some batch ∧
          batch.rows.getLast?.map (·.seqId) = some id := by
  obtain ⟨hans, hbudget⟩ := Bool.and_eq_true _ _ ▸ hguard
  obtain ⟨r, s, hs, hrows⟩ := EngineState.exists_of_answered hans
  obtain ⟨hresult, hserved⟩ := h.result hmode hgroup hbudget hs
  have hqueue : x.sched.prefillPasses queueTest = true :=
    admitPasses_mono (fun st seqId d ranks hW => (Bool.and_eq_true _ _ ▸ hW :
      queueTest st seqId d ranks = true ∧ startsInPrompt st seqId d ranks = true).1)
        (Bool.and_eq_true _ _ ▸ hbudget).1
  have hcalls := h.calls.engineStep hs hqueue hrows logprobs
  have hconfig : (s.completeSwaps r).config = config := hserved.config
  have hsconfig : s.config = config := ((completeSwaps_frame s r).config.symm.trans hconfig)
  have hkv : s.isKvOnly r = false ∧ (s.completeSwaps r).isKvOnly r = false := by
    unfold isKvOnly
    rw [hconfig, hsconfig]
    simp [hmode]
  have hmatch : r.rowsMatch rows = true := hrows.resolve_left fun htrue => by
    rw [hkv.1] at htrue
    cases htrue
  have hpost := postprocessImpl_partial hresult ((congrArg SchedulerConfig.group hconfig).trans hgroup)
    (hserved.grouped r rfl) hserved.running_real hmatch logprobs
  have hran : (s.completeSwaps r).runScheduled r rows logprobs =
      (s.completeSwaps r).postprocessImpl r.filteredDpGroupSeqIds rows logprobs := by
    unfold runScheduled
    rw [hkv.2, if_neg Bool.false_ne_true]
  have hf := recordCompleteStep_frame ((s.completeSwaps r).runScheduled r rows logprobs) r.dpSeqIds x.trackRunning
    x.previousRunning
  rw [hran] at hf
  have hsched := EngineState.step_sched hs rows logprobs
  rw [hran] at hsched
  generalize (s.completeSwaps r).postprocessImpl r.filteredDpGroupSeqIds rows logprobs = s₁ at hpost hf hsched
  have hentry : ∀ id b, (x.step rows logprobs).sched.seqTable id = some b → ∃ a, s₁.seqTable id = some a ∧
      b.numTokens = a.numTokens ∧ promptTarget b = promptTarget a ∧ (a.Sound id → b.Sound id) := by
    intro id b hb
    rw [hsched] at hb
    cases ha : s₁.seqTable id with
    | none =>
      rw [hf.table.missing id ha] at hb
      cases hb
    | some a =>
      obtain ⟨b', hb', hab⟩ := hf.table.entry id a ha
      obtain rfl := Option.some.inj (hb'.symm.trans hb)
      obtain rfl | rfl := hab
      · exact ⟨_, rfl, rfl, rfl, fun hsound => hsound⟩
      · exact ⟨a, rfl, rfl, rfl, fun hsound => ⟨hsound.seqId, hsound.target, hsound.host⟩⟩
  have hdp : (x.step rows logprobs).sched.dp = (s.completeSwaps r).dp := by
    rw [hsched]
    exact (congrArg SchedulerConfig.dp hf.config).trans (congrArg SchedulerConfig.dp hpost.config)
  have hdp₁ : s₁.dp = (s.completeSwaps r).dp := congrArg SchedulerConfig.dp hpost.config
  -- a chunked prefill is a partial row of the batch that was served
  have hrow : ∀ d < (s.completeSwaps r).dp,
    ∀ id ∈ (x.step rows logprobs).sched.prefilling d, r.isPrefill = true ∧
      (r.dpSeqIds.getD d []).getLast? = some id ∧ (∃ b, s₁.seqTable id = some b ∧ 0 ≤ b.numTokens ∧
        b.numTokens < promptTarget b) ∧ ∃ batch, ((s.completeSwaps r).serializeRunBatches r)[d]? = some batch ∧
          batch.rows.getLast?.map (·.seqId) = some id := by
    intro d hd id hid
    rw [hsched, hf.prefilling] at hid
    obtain ⟨hlisted, hreal, b, hb, hlt⟩ := hpost.below d (hdp₁.symm ▸ hd) id hid
    obtain ⟨a, ha, hnum, htarget⟩ := hpost.origin id b hb hlt
    have hprefill : r.isPrefill = true := by
      by_contra hdecode
      have hruns := List.forall₂_iff_get.1 (hserved.runs r rfl)
      have hlen : d < r.dpSeqIds.length := hresult.length.symm ▸ hd
      have hpart := hruns.2 d (by simpa using hd) hlen
      have hmem : id ∈ (s.completeSwaps r).real (r.dpSeqIds.get ⟨d, hlen⟩) := by
        refine mem_real.2 ⟨?_, hpost.dummySeqIds ▸ hreal⟩
        rw [List.getD_eq_getElem?_getD, List.getElem?_eq_getElem hlen, Option.getD_some] at hlisted
        exact hlisted
      have hrun : id ∈ (s.completeSwaps r).running d := by simpa using hpart.2 id hmem
      have := hresult.complete d hd id hrun (.inl (by simpa using hdecode)) a ha
      omega
    obtain ⟨hlast, hnonneg, batch, hbatch, hseq⟩ := hresult.last_row hprefill hd hlisted ha (by omega)
    exact ⟨hprefill, hlast, ⟨b, hb, by omega, hlt⟩, batch, hbatch, hseq⟩
  refine ⟨⟨hcalls, fun id b hb => ?_, fun d hd id hid b hb => ?_, fun d hd => ?_, fun d hd id hid b hb => ?_⟩,
    fun d hd id hid => ?_⟩
  · obtain ⟨a, ha, -, -, hsound⟩ := hentry id b hb
    exact hsound (hpost.sound id a ha)
  · obtain ⟨a, ha, hnum, htarget, -⟩ := hentry id b hb
    rw [hsched, hf.running] at hid
    rw [hnum, htarget]
    exact hpost.complete d (hdp₁.symm ▸ hdp ▸ hd) id hid a ha
  · -- the ids are distinct, and each of them is the last row
    have hnodup : ((x.step rows logprobs).sched.prefilling d).Nodup := by
      rw [List.nodup_iff_count_le_one]
      intro id
      have hle := hcalls.one.le_one id
      have hcount := count_le_totalCount hd (x.step rows logprobs).sched.prefilling id
      change queueCount (x.step rows logprobs).sched id + _ ≤ 1 at hle
      unfold queueCount at hle
      omega
    have hlast : ∀ id ∈ (x.step rows logprobs).sched.prefilling d, (r.dpSeqIds.getD d []).getLast? = some id :=
      fun id hid => (hrow d (hdp ▸ hd) id hid).2.1
    generalize (x.step rows logprobs).sched.prefilling d = ids at hnodup hlast
    cases ids with
    | nil => exact Nat.zero_le _
    | cons id ids =>
      cases ids with
      | nil => exact Nat.le_refl _
      | cons id' ids =>
        have h₁ := hlast id List.mem_cons_self
        have h₂ := hlast id' (List.mem_cons_of_mem _ List.mem_cons_self)
        obtain rfl := Option.some.inj (h₁.symm.trans h₂)
        simp at hnodup
  · obtain ⟨a, ha, hnum, htarget, -⟩ := hentry id b hb
    obtain ⟨-, -, ⟨a', ha', hnonneg, hlt⟩, -⟩ := hrow d (hdp ▸ hd) id hid
    obtain rfl := Option.some.inj (ha.symm.trans ha')
    rw [hnum, htarget]
    exact ⟨hnonneg, hlt⟩
  · have hd' : d < (s.completeSwaps r).dp := by
      have hconfig' : x.sched.config = config := h.calls.config
      unfold Scheduler.dp at *
      rwa [hconfig, ← hconfig']
    obtain ⟨hprefill, -, -, batch, hbatch, hseq⟩ := hrow d hd' id hid
    exact ⟨r, s, batch, hs, hprefill, hbatch, hseq⟩

end PartialInv

/-! ## Runs -/

section runs

variable [Xxh3]

theorem partialInv_invariant (hmode : config.mode ≠ .decode) (hgroup : config.group = 1) :
    Invariant (engineSystem config) budgetGuard (PartialInv config) where
  initial := by
    rintro x rfl
    refine ⟨CallInv.init config, fun id a ha => ?_, fun d _ id hid => ?_,
      fun d _ => Nat.zero_le _, fun d _ id hid => ?_⟩
    · cases ha
    · cases hid
    · cases hid
  next := by
    intro x op x' h hguard hnext
    have hstep := EngineState.step_of_next hnext
    by_cases hop : ∃ rows logprobs, op = .step rows logprobs
    · obtain ⟨rows, logprobs, rfl⟩ := hop
      cases hstep
      exact (h.step hmode hgroup logprobs hguard).1
    · exact h.event hstep fun rows logprobs heq => hop ⟨rows, logprobs, heq⟩

/-- **The prefill budget is respected.**  A rank has at most one partially prefilled sequence, every batch of a prefill
is within the budget, and a sequence that a step leaves partial was the last row of its batch. -/
theorem prefill_budget (config : SchedulerConfig) (hmode : config.mode ≠ .decode) (hgroup : config.group = 1)
    (x : EngineState) (hx : Reachable (engineSystem config) budgetGuard x) :
    (∀ d < config.dp, (x.sched.partials d).length ≤ 1) ∧
    (∀ r s, x.sched.schedule = (.ok r, s) → x.budgeted = true → r.isPrefill = true →
      ∀ batch ∈ (s.completeSwaps r).serializeRunBatches r, batch.WithinBudget config) ∧
    (∀ rows logprobs, budgetGuard x (.step rows logprobs) = true → ∀ d < config.dp,
      ∀ id ∈ (x.step rows logprobs).sched.partials d, ∃ r s batch,
        x.sched.schedule = (.ok r, s) ∧ r.isPrefill = true ∧
        ((s.completeSwaps r).serializeRunBatches r)[d]? = some batch ∧
          batch.rows.getLast?.map (·.seqId) = some id) := by
  have h := (partialInv_invariant hmode hgroup).holds hx
  have hconfig : x.sched.config = config := h.calls.config
  have hdp : x.sched.dp = config.dp := congrArg SchedulerConfig.dp hconfig
  refine ⟨fun d hd => (h.one.partials_eq (hdp.symm ▸ hd)).1, fun r s hs hbudget hprefill batch hbatch => ?_,
    fun rows logprobs hguard d hd id hid => ?_⟩
  · obtain ⟨hresult, hserved⟩ := h.result hmode hgroup hbudget hs
    have hwithin := hresult.withinBudget hprefill batch hbatch
    rwa [show (s.completeSwaps r).config = config from hserved.config] at hwithin
  · obtain ⟨hinv, hrow⟩ := h.step hmode hgroup logprobs hguard
    have hd' : d < (x.step rows logprobs).sched.dp := by
      rw [show (x.step rows logprobs).sched.dp = config.dp from congrArg SchedulerConfig.dp hinv.calls.config]
      exact hd
    exact hrow d (hdp.symm ▸ hd) id ((hinv.one.partials_eq hd').2 id hid)

end runs

/-! ## Evaluated runs -/

section evaluated

attribute [local instance] codeHash

/-- The next schedule is a prefill that sends a batch with `p`. -/
def EngineState.prefillSends (x : EngineState) (p : WireBatch → Bool) : Bool :=
  match x.sched.schedule with
  | (.ok r, s) => r.isPrefill && ((s.completeSwaps r).serializeRunBatches r).any p
  | (.error _, _) => false

theorem EngineState.exists_prefillBatch {x : EngineState} {p : WireBatch → Bool} (h : x.prefillSends p = true) :
    ∃ r s, x.sched.schedule = (.ok r, s) ∧ r.isPrefill = true ∧
      ∃ batch ∈ (s.completeSwaps r).serializeRunBatches r, p batch = true := by
  unfold EngineState.prefillSends at h
  cases hs : x.sched.schedule with
  | mk result s =>
    rw [hs] at h
    cases result with
    | error e => cases h
    | ok r =>
      obtain ⟨hprefill, hany⟩ := Bool.and_eq_true _ _ ▸ h
      exact ⟨r, s, rfl, hprefill, List.any_eq_true.1 hany⟩

/-- A prompt of seven tokens with a budget of four: the second step sends its last three. -/
theorem prefill_budget_sliced : ∃ x, Reachable (engineSystem slicedConfig) budgetGuard x ∧
    x.sched.partials 0 = [0] ∧
    (x.sched.partials 0).length ≤ 1 ∧ ∃ r s, x.sched.schedule = (.ok r, s) ∧
      ∀ batch ∈ (s.completeSwaps r).serializeRunBatches r, batch.WithinBudget slicedConfig := by
  obtain ⟨x, hx, hP⟩ := Reachable.exists_of_run (T := engineSystem slicedConfig) (G := budgetGuard)
    (P := fun x : EngineState => decide (x.sched.partials 0 = [0]) && x.budgeted && x.prefillSends fun _ => true)
    (s := EngineState.init slicedConfig) [promptOf 0, .step [[[9]]] []] rfl (by decide +kernel)
  simp only [Bool.and_eq_true, decide_eq_true_eq] at hP
  obtain ⟨⟨hone, hbudget⟩, hsends⟩ := hP
  obtain ⟨r, s, hs, hprefill, -⟩ := EngineState.exists_prefillBatch hsends
  have h := prefill_budget slicedConfig (by decide) rfl x hx
  exact ⟨x, hx, hone, h.1 0 (by decide), r, s, hs, h.2.1 r s hs hbudget hprefill⟩

/-- Three blocks of four tokens and a budget of five. -/
def tightConfig : SchedulerConfig where
  maxNumSeqs := 8
  maxNumBatchedTokens := 5
  maxModelLen := 100
  numKvcacheBlocks := 3
  kvcacheBlockSize := 4

/-- Sequence `0` goes on with its second chunk; the admission of sequence `1` preempts it in the same call, and all of
its seven tokens are packed. -/
theorem not_prefill_budget : ¬ ∀ (config : SchedulerConfig) (x : EngineState), config.mode ≠ .decode →
    config.group = 1 →
    Reachable (engineSystem config) (fun x op => match op with | .step rows _ => x.answered rows | _ => true) x →
    ∀ r s, x.sched.schedule = (.ok r, s) → r.isPrefill = true →
      ∀ batch ∈ (s.completeSwaps r).serializeRunBatches r,
      (batch.inputIds.length : ℤ) ≤ max 1 config.maxNumBatchedTokens := by
  intro h
  obtain ⟨x, hx, hP⟩ := Reachable.exists_of_run (T := engineSystem tightConfig)
    (G := fun x op => match op with | .step rows _ => x.answered rows | _ => true)
    (P := fun x : EngineState => x.prefillSends fun batch => decide (5 < batch.inputIds.length))
    (s := EngineState.init tightConfig)
    [promptOf 0, .step [[[5]]] [], .addRequest { seqId := 1, promptTokenIds := [21, 22, 23, 24, 25, 26, 27] }] rfl
    (by decide +kernel)
  obtain ⟨r, s, hs, hprefill, batch, hbatch, hlen⟩ := EngineState.exists_prefillBatch hP
  have hle := h tightConfig x (by decide) rfl hx r s hs hprefill batch hbatch
  have hlen := of_decide_eq_true hlen
  change (batch.inputIds.length : ℤ) ≤ max 1 5 at hle
  omega

end evaluated

end NanoEngine
