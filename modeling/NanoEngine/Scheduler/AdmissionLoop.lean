import Mathlib.Algebra.BigOperators.Group.Finset.Basic
import Mathlib.Algebra.Order.BigOperators.Group.Finset
import NanoEngine.Scheduler.Admission

/-!
# NanoEngine.Scheduler.AdmissionLoop — the admission loop as a chain of steps

* `triesPass W`, `admitPasses W`: the test `W` holds at every call of `try_allocate_prefill` that the loop makes.
* `headSafe`: after a refused try the sequence is still at the head of its queue, or no later rank takes it.
* `AdmitStep W`: one step of the loop.  `admitLoop_steps`: a loop that passes its tests is a chain of such steps.
* `admitLoop_fuel`: the fuel never runs out.
-/

namespace NanoEngine

namespace PrefillState

variable [Xxh3]

/-- A test of one call of `try_allocate_prefill`: state, sequence, rank and the ranks still to try. -/
abbrev TryTest := PrefillState → ℕ → ℕ → List ℕ → Bool

/-- The call of `try_allocate_prefill` for a rank. -/
def tryOn (st : PrefillState) (seqId dpIdx : ℕ) : Except PyErr (Option ℤ) × Scheduler :=
  st.sched.tryAllocatePrefill seqId dpIdx (st.numSeqs dpIdx) (st.numTokens dpIdx)

/-- `W` holds at every try of `tryCandidates`. -/
def triesPass (W : TryTest) (seqId : ℕ) : List ℕ → PrefillState → Bool
  | [], _ => true
  | dpIdx :: ranks, st =>
    if st.sched.cacheSeqHasHostBlocks seqId then
      match st.sched.cacheTryRestoreHostBlocks seqId dpIdx with
      | (.ok false, s) => triesPass W seqId ranks (st.withSched s)
      | _ => true
    else
      W st seqId dpIdx ranks && match st.tryOn seqId dpIdx with
        | (.ok none, s) => triesPass W seqId ranks (st.withSched s)
        | _ => true

/-- `W` holds at every try of `admitLoop`. -/
def admitPasses (W : TryTest) : ℕ → PrefillState → Bool
  | 0, _ => true
  | fuel + 1, st =>
    match st.queue.head? with
    | none => true
    | some seqId =>
      let routed := st.sched.routeCandidates seqId
      triesPass W seqId routed.1 (st.withSched routed.2) &&
        match tryCandidates seqId routed.1 (st.withSched routed.2) with
        | (.ok true, st) => admitPasses W fuel st
        | _ => true

/-- After a refused try the sequence still heads its queue, or no later rank takes it: `remove(0)` removes the
sequence that was placed. -/
def headSafe : TryTest := fun st seqId dpIdx ranks =>
  match st.tryOn seqId dpIdx with
  | (.ok none, s) =>
    decide ((st.withSched s).queue.head? = some seqId) ||
      !(match tryCandidates seqId ranks (st.withSched s) with
        | (.ok placed, _) => placed
        | (.error _, _) => false)
  | _ => true

/-- One step of the admission loop, when every try passes `W`. -/
inductive AdmitStep (W : TryTest) : PrefillState → PrefillState → Prop
  | routed {st : PrefillState} {seqId : ℕ} (head : st.queue.head? = some seqId) :
      AdmitStep W st (st.withSched (st.sched.routeCandidates seqId).2)
  | tried {st : PrefillState} {seqId dpIdx : ℕ} {ranks : List ℕ} {s' : Scheduler} (mem : seqId ∈ st.queue)
      (rank : dpIdx < st.sched.dp) (noHost : st.sched.cacheSeqHasHostBlocks seqId = false)
      (test : W st seqId dpIdx ranks = true) (try_ : st.tryOn seqId dpIdx = (.ok none, s')) :
      AdmitStep W st (st.withSched s')
  | restored {st : PrefillState} {seqId dpIdx : ℕ} {s' : Scheduler} (head : st.queue.head? = some seqId)
      (rank : dpIdx < st.sched.dp) (host : st.sched.cacheSeqHasHostBlocks seqId = true)
      (restore : st.sched.cacheTryRestoreHostBlocks seqId dpIdx = (.ok true, s')) :
      AdmitStep W st ((st.withSched s').placeRestored dpIdx seqId)
  | admitted {st : PrefillState} {seqId dpIdx : ℕ} {ranks : List ℕ} {newTokens : ℤ} {s' : Scheduler}
      (head : st.queue.head? = some seqId) (rank : dpIdx < st.sched.dp)
      (noHost : st.sched.cacheSeqHasHostBlocks seqId = false) (test : W st seqId dpIdx ranks = true)
      (try_ : st.tryOn seqId dpIdx = (.ok (some newTokens), s')) :
      AdmitStep W st ((st.withSched s').placeAdmitted dpIdx seqId newTokens)

/-- A weaker test allows the same steps. -/
theorem AdmitStep.mono {W W' : TryTest} (hW : ∀ st seqId dpIdx ranks, W st seqId dpIdx ranks = true →
    W' st seqId dpIdx ranks = true) {st st' : PrefillState} (h : AdmitStep W st st') : AdmitStep W' st st' := by
  cases h with
  | routed head => exact .routed head
  | tried mem rank noHost test try_ => exact .tried mem rank noHost (hW _ _ _ _ test) try_
  | restored head rank host restore => exact .restored head rank host restore
  | admitted head rank noHost test try_ => exact .admitted head rank noHost (hW _ _ _ _ test) try_

section mono

variable {W W' : TryTest} (hW : ∀ st seqId dpIdx ranks, W st seqId dpIdx ranks = true →
  W' st seqId dpIdx ranks = true)
include hW

theorem triesPass_mono {seqId : ℕ} {ranks : List ℕ} {st : PrefillState} (h : triesPass W seqId ranks st = true) :
    triesPass W' seqId ranks st = true := by
  induction ranks generalizing st with
  | nil => rfl
  | cons dpIdx ranks ih =>
    unfold triesPass at h ⊢
    split
    case isTrue hhost =>
      rw [if_pos hhost] at h
      split
      case h_1 s hs =>
        rw [hs] at h
        exact ih h
      case h_2 => rfl
    case isFalse hhost =>
      rw [if_neg hhost, Bool.and_eq_true] at h
      rw [Bool.and_eq_true]
      refine ⟨hW _ _ _ _ h.1, ?_⟩
      replace h := h.2
      split
      case h_1 s hs =>
        rw [hs] at h
        exact ih h
      case h_2 => rfl

theorem admitPasses_mono {fuel : ℕ} {st : PrefillState} (h : admitPasses W fuel st = true) :
    admitPasses W' fuel st = true := by
  induction fuel generalizing st with
  | zero => rfl
  | succ fuel ih =>
    unfold admitPasses at h ⊢
    split
    case h_1 => rfl
    case h_2 seqId hhead =>
      rw [hhead] at h
      dsimp only at h ⊢
      rw [Bool.and_eq_true] at h ⊢
      refine ⟨triesPass_mono hW h.1, ?_⟩
      replace h := h.2
      split
      case h_1 st' hst =>
        rw [hst] at h
        exact ih h
      case h_2 => rfl

end mono

/-! ## Refused tries keep the queue -/

open Scheduler

omit [Xxh3] in
theorem queue_withSched_of_same {st : PrefillState} {s : Scheduler} (h : SameQueues st.sched s) :
    (st.withSched s).queue = st.queue := by
  unfold queue withSched
  rw [h.config, h.waiting, h.waitingMigration]

/-- A refused try leaves the configuration alone and removes nothing from the queue; it adds at most one sequence. -/
theorem tryOn_none_queue {st : PrefillState} {seqId dpIdx : ℕ} {s' : Scheduler}
    (h : st.tryOn seqId dpIdx = (.ok none, s')) :
    s'.config = st.sched.config ∧ (∀ id ∈ st.queue, id ∈ (st.withSched s').queue) ∧
      (st.withSched s').queue.length ≤ st.queue.length + 1 := by
  have hcases := tryAllocatePrefill_cases h
  generalize hr : (none : Option ℤ) = r at hcases
  cases hcases with
  | refused hprep =>
    have hf := prepareAdmission_frame st.sched seqId dpIdx (st.numSeqs dpIdx) (st.numTokens dpIdx)
    rw [hprep] at hf
    rw [queue_withSched_of_same hf.toSameQueues]
    exact ⟨hf.config, fun _ h => h, Nat.le_succ _⟩
  | @preempted a s₁ s₂ e victim hprep hres hchosen =>
    have hsame := (TryCase.cancelled_frame hprep hres).toSameQueues
    have hp := preemptImpl_spec (s₂.cancelAdmission seqId) dpIdx victim
    have hw := hp.waiting
    rw [hsame.waiting] at hw
    refine ⟨hp.config.trans hsame.config, ?_⟩
    unfold queue withSched
    dsimp only
    rw [hp.config.trans hsame.config, hp.waitingMigration.trans hsame.waitingMigration]
    split
    · exact ⟨fun _ h => h, Nat.le_succ _⟩
    · rcases hw with hw | hw <;> rw [hw] <;> simp +contextual
  | admitted => cases hr

/-! ## The loop as a chain of steps -/

variable {W : TryTest}

/-- The tries of a sequence that no rank takes: it stays in the queue. -/
theorem tryCandidates_false_steps {seqId : ℕ} {ranks : List ℕ} {st st' : PrefillState}
    (hranks : ∀ d ∈ ranks, d < st.sched.dp) (hmem : seqId ∈ st.queue) (hpass : triesPass W seqId ranks st = true)
    (h : tryCandidates seqId ranks st = (.ok false, st')) : Relation.ReflTransGen (AdmitStep W) st st' := by
  induction ranks generalizing st with
  | nil =>
    cases h
    exact .refl
  | cons dpIdx ranks ih =>
    unfold tryCandidates at h
    unfold triesPass at hpass
    split at h
    case isTrue hhost =>
      rw [if_pos hhost] at hpass
      split at h
      case h_1 => cases h
      case h_2 => cases h
      case h_3 s hres =>
        obtain rfl := cacheTryRestoreHostBlocks_false hres
        rw [hres] at hpass
        exact ih (fun d hd => hranks d (List.mem_cons_of_mem _ hd)) hmem hpass h
    case isFalse hhost =>
      rw [if_neg hhost, Bool.and_eq_true] at hpass
      obtain ⟨htest, hpass⟩ := hpass
      have hhost : st.sched.cacheSeqHasHostBlocks seqId = false := by simpa using hhost
      split at h
      case h_1 => cases h
      case h_2 => cases h
      case h_3 s htry =>
        rw [tryOn, htry] at hpass
        obtain ⟨hconfig, hkeep, -⟩ := tryOn_none_queue htry
        have hstep : AdmitStep W st (st.withSched s) :=
          .tried hmem (hranks dpIdx List.mem_cons_self) hhost htest htry
        refine .head hstep (ih (fun d hd => ?_) (hkeep _ hmem) hpass h)
        have hlt := hranks d (List.mem_cons_of_mem _ hd)
        unfold Scheduler.dp at hlt ⊢
        unfold withSched
        rwa [hconfig]

/-- The tries of a sequence that some rank takes, when it heads the queue and all tries are `headSafe`. -/
theorem tryCandidates_true_steps (hW : ∀ st seqId dpIdx ranks, st.queue.head? = some seqId →
    W st seqId dpIdx ranks = true → headSafe st seqId dpIdx ranks = true) {seqId : ℕ} {ranks : List ℕ}
      {st st' : PrefillState}
    (hranks : ∀ d ∈ ranks, d < st.sched.dp) (hhead : st.queue.head? = some seqId)
    (hpass : triesPass W seqId ranks st = true) (h : tryCandidates seqId ranks st = (.ok true, st')) :
    Relation.ReflTransGen (AdmitStep W) st st' := by
  induction ranks generalizing st with
  | nil => cases h
  | cons dpIdx ranks ih =>
    have hrank := hranks dpIdx List.mem_cons_self
    unfold tryCandidates at h
    unfold triesPass at hpass
    split at h
    case isTrue hhost =>
      rw [if_pos hhost] at hpass
      split at h
      case h_1 => cases h
      case h_2 s hres =>
        cases h
        exact .single (.restored hhead hrank hhost hres)
      case h_3 s hres =>
        obtain rfl := cacheTryRestoreHostBlocks_false hres
        rw [hres] at hpass
        exact ih (fun d hd => hranks d (List.mem_cons_of_mem _ hd)) hhead hpass h
    case isFalse hhost =>
      rw [if_neg hhost, Bool.and_eq_true] at hpass
      obtain ⟨htest, hpass⟩ := hpass
      have hhost : st.sched.cacheSeqHasHostBlocks seqId = false := by simpa using hhost
      split at h
      case h_1 => cases h
      case h_2 newTokens s htry =>
        cases h
        exact .single (.admitted hhead hrank hhost htest htry)
      case h_3 s htry =>
        rw [tryOn, htry] at hpass
        obtain ⟨hconfig, -, -⟩ := tryOn_none_queue htry
        have hsafe := hW st seqId dpIdx ranks hhead htest
        -- some later rank takes the sequence, so it must still be at the head
        have hhead' : (st.withSched s).queue.head? = some seqId := by
          unfold headSafe tryOn at hsafe
          rw [htry] at hsafe
          simpa [h] using hsafe
        have hstep : AdmitStep W st (st.withSched s) :=
          .tried (List.mem_of_mem_head? hhead) hrank hhost htest htry
        refine .head hstep (ih (fun d hd => ?_) hhead' hpass h)
        have hlt := hranks d (List.mem_cons_of_mem _ hd)
        unfold Scheduler.dp at hlt ⊢
        unfold withSched
        rwa [hconfig]

/-- **The admission loop is a chain of `AdmitStep`s** when every try passes a test that implies `headSafe`. -/
theorem admitLoop_steps (hW : ∀ st seqId dpIdx ranks, st.queue.head? = some seqId →
    W st seqId dpIdx ranks = true → headSafe st seqId dpIdx ranks = true) {fuel : ℕ} {st st' : PrefillState}
      (hpass : admitPasses W fuel st = true)
    (h : admitLoop fuel st = (.ok (), st')) : Relation.ReflTransGen (AdmitStep W) st st' := by
  -- each turn routes the head and tries its ranks; both are steps
  induction fuel generalizing st with
  | zero =>
    cases h
    exact .refl
  | succ fuel ih =>
    unfold admitLoop at h
    unfold admitPasses at hpass
    split at h
    case h_1 =>
      cases h
      exact .refl
    case h_2 seqId hhead =>
      rw [hhead] at hpass
      simp only [Bool.and_eq_true] at hpass
      obtain ⟨hpass₁, hpass₂⟩ := hpass
      have hroute : AdmitStep W st (st.withSched (st.sched.routeCandidates seqId).2) := .routed hhead
      have hframe := (routeCandidates_frame st.sched seqId 0).toSameQueues
      have hhead' : (st.withSched (st.sched.routeCandidates seqId).2).queue.head? = some seqId := by
        rw [queue_withSched_of_same hframe, hhead]
      have hranks : ∀ d ∈ (st.sched.routeCandidates seqId).1,
          d < (st.withSched (st.sched.routeCandidates seqId).2).sched.dp := by
        intro d hd
        have hlt := routeCandidates_lt st.sched seqId d hd
        unfold Scheduler.dp at hlt ⊢
        unfold withSched
        rwa [hframe.config]
      dsimp only at h
      split at h
      case h_1 => cases h
      case h_2 st₁ htry =>
        cases h
        exact .head hroute (tryCandidates_false_steps hranks (List.mem_of_mem_head? hhead') hpass₁ htry)
      case h_3 st₁ htry =>
        rw [htry] at hpass₂
        exact .head hroute ((tryCandidates_true_steps hW hranks hhead' hpass₁ htry).trans (ih hpass₂ h))

/-! ## The fuel suffices -/

omit [Xxh3] in
/-- The places left in the batches of all groups. -/
def placesLeft (st : PrefillState) : ℕ :=
  ∑ d ∈ Finset.range st.sched.dp, ∑ g ∈ Finset.range st.sched.group,
    (max st.sched.config.maxNumSeqs 1 - st.numSeqs d g).toNat

/-- A refused try does not touch the host copy of its sequence. -/
theorem tryOn_none_noHost {st : PrefillState} {seqId dpIdx : ℕ} {s' : Scheduler}
    (h : st.tryOn seqId dpIdx = (.ok none, s')) :
    s'.cacheSeqHasHostBlocks seqId = st.sched.cacheSeqHasHostBlocks seqId := by
  have hkeep : ∀ s₁ : Scheduler, Frame Sequence.KeepsRequest seqId st.sched s₁ →
      s₁.cacheSeqHasHostBlocks seqId = st.sched.cacheSeqHasHostBlocks seqId := by
    intro s₁ hf
    unfold cacheSeqHasHostBlocks
    cases ha : st.sched.seqTable seqId with
    | none => rw [hf.missing ha]
    | some a =>
      obtain ⟨b, hb, hab⟩ := hf.entry a ha
      rw [hb, Option.map_some, Option.map_some, hab.hostBlockTable]
  have hcases := tryAllocatePrefill_cases h
  generalize hr : (none : Option ℤ) = r at hcases
  cases hcases with
  | refused hprep =>
    have hf := prepareAdmission_frame st.sched seqId dpIdx (st.numSeqs dpIdx) (st.numTokens dpIdx)
    rw [hprep] at hf
    exact hkeep _ (hf.mono fun _ _ => Sequence.RecordsCached.keepsRequest)
  | @preempted a s₁ s₂ e victim hprep hres hchosen =>
    have hf := TryCase.cancelled_frame hprep hres
    have hp := preemptImpl_spec (s₂.cancelAdmission seqId) dpIdx victim
    rw [← hkeep _ (hf.mono fun _ _ h => h.1)]
    unfold cacheSeqHasHostBlocks
    rw [hp.others seqId (preemptVictim_mem hchosen).2.1.symm]
  | admitted => cases hr

omit [Xxh3] in
/-- The places depend on the configuration and the counters only. -/
theorem placesLeft_congr {st st' : PrefillState} (h : st'.sched.config = st.sched.config)
    (hn : st'.numSeqs = st.numSeqs) : st'.placesLeft = st.placesLeft := by
  unfold placesLeft Scheduler.dp Scheduler.group
  rw [h, hn]

omit [Xxh3] in
/-- Joining a group that has a place left takes that place. -/
theorem placesLeft_join {st : PrefillState} {dpIdx groupId : ℕ} (seqId : ℕ) (newTokens : ℤ)
    (hd : dpIdx < st.sched.dp)
    (hg : groupId < st.sched.group) (hroom : st.numSeqs dpIdx groupId < max st.sched.config.maxNumSeqs 1) :
    (st.join dpIdx groupId seqId newTokens).placesLeft < st.placesLeft := by
  unfold placesLeft
  have hle : ∀ d g, (max st.sched.config.maxNumSeqs 1 -
      (st.join dpIdx groupId seqId newTokens).numSeqs d g).toNat ≤
      (max st.sched.config.maxNumSeqs 1 - st.numSeqs d g).toNat := by
    intro d g
    unfold join
    by_cases h₁ : d = dpIdx
    · subst h₁
      by_cases h₂ : g = groupId
      · subst h₂
        simp only [Function.update_self]
        omega
      · simp [Function.update_of_ne h₂]
    · simp [Function.update_of_ne h₁]
  refine Finset.sum_lt_sum (fun d _ => Finset.sum_le_sum fun g _ => hle d g) ⟨dpIdx, Finset.mem_range.2 hd, ?_⟩
  refine Finset.sum_lt_sum (fun g _ => hle dpIdx g) ⟨groupId, Finset.mem_range.2 hg, ?_⟩
  simp only [join, Function.update_self]
  change (max st.sched.config.maxNumSeqs 1 - (st.numSeqs dpIdx groupId + 1)).toNat < _
  omega

omit [Xxh3] in
theorem queue_placeRestored (st : PrefillState) (dpIdx seqId : ℕ) :
    (st.placeRestored dpIdx seqId).queue = st.queue.tail := by
  unfold placeRestored notePlaced popQueue queue withSched
  by_cases hmode : st.sched.config.mode = .decode <;> simp [hmode, pushRunning, setCache]

omit [Xxh3] in
theorem queue_placeAdmitted (st : PrefillState) (dpIdx seqId : ℕ) (newTokens : ℤ) :
    (st.placeAdmitted dpIdx seqId newTokens).queue = st.queue.tail := by
  unfold placeAdmitted notePlaced join popQueue queue withSched
  by_cases hmode : st.sched.config.mode = .decode <;>
    simp [hmode, pushRunning, setCache, markScheduled, updateSeq]

omit [Xxh3] in
theorem config_popQueue (st : PrefillState) : st.popQueue.sched.config = st.sched.config := by
  unfold popQueue withSched
  by_cases hmode : st.sched.config.mode = .decode <;> simp [hmode]

/-! ### What a placement changes -/

section placements

omit [Xxh3]

variable (st : PrefillState) (dpIdx seqId : ℕ) (newTokens : ℤ)

theorem config_placeRestored : (st.placeRestored dpIdx seqId).sched.config = st.sched.config := config_popQueue st

theorem config_placeAdmitted : (st.placeAdmitted dpIdx seqId newTokens).sched.config = st.sched.config :=
  config_popQueue st

theorem running_popQueue : st.popQueue.sched.running = st.sched.running := by
  unfold popQueue withSched
  by_cases hmode : st.sched.config.mode = .decode <;> simp [hmode]

theorem prefilling_popQueue : st.popQueue.sched.prefilling = st.sched.prefilling := by
  unfold popQueue withSched
  by_cases hmode : st.sched.config.mode = .decode <;> simp [hmode]

theorem running_placeRestored :
    (st.placeRestored dpIdx seqId).sched.running = (st.sched.pushRunning dpIdx seqId).running := by
  change (st.popQueue.sched.pushRunning dpIdx seqId).running = _
  unfold pushRunning
  rw [running_popQueue]

theorem running_placeAdmitted :
    (st.placeAdmitted dpIdx seqId newTokens).sched.running = (st.sched.pushRunning dpIdx seqId).running := by
  change (st.popQueue.sched.pushRunning dpIdx seqId).running = _
  unfold pushRunning
  rw [running_popQueue]

theorem seqTable_popQueue : st.popQueue.sched.seqTable = st.sched.seqTable := by
  unfold popQueue withSched
  by_cases hmode : st.sched.config.mode = .decode <;> simp [hmode]

theorem currentStep_popQueue : st.popQueue.sched.currentStep = st.sched.currentStep := by
  unfold popQueue withSched
  by_cases hmode : st.sched.config.mode = .decode <;> simp [hmode]

theorem seqTable_placeRestored : (st.placeRestored dpIdx seqId).sched.seqTable = st.sched.seqTable :=
  seqTable_popQueue st

theorem seqTable_placeAdmitted :
    (st.placeAdmitted dpIdx seqId newTokens).sched.seqTable = (st.sched.markScheduled seqId).seqTable := by
  change (st.popQueue.sched.markScheduled seqId).seqTable = _
  unfold markScheduled updateSeq
  rw [seqTable_popQueue, currentStep_popQueue]

theorem dummySeqIds_popQueue : st.popQueue.sched.dummySeqIds = st.sched.dummySeqIds := by
  unfold popQueue withSched
  by_cases hmode : st.sched.config.mode = .decode <;> simp [hmode]

end placements

/-- An admitted sequence had a place in the group it is counted in. -/
theorem tryOn_some_group {st : PrefillState} {seqId dpIdx : ℕ} {newTokens : ℤ} {s' : Scheduler}
    (h : st.tryOn seqId dpIdx = (.ok (some newTokens), s')) :
    SameQueues st.sched s' ∧ s'.groupOfId seqId < st.sched.group ∧
      st.numSeqs dpIdx (s'.groupOfId seqId) < max st.sched.config.maxNumSeqs 1 := by
  have hcases := tryAllocatePrefill_cases h
  generalize hr : (some newTokens : Option ℤ) = r at hcases
  cases hcases with
  | refused => cases hr
  | preempted => cases hr
  | @admitted a s₁ s₂ _ hprep hres hfin =>
    have hf := TryCase.admitted_frame hprep hres hfin
    obtain ⟨seq, hseq, -⟩ := prepareAdmission_some hprep
    obtain ⟨hlt, hroom⟩ := chooseMasterGroup_some hseq.group
    obtain ⟨y, hy, z, -, -, hgroup⟩ := hf.entry seq hseq.entry
    have hid : s'.groupOfId seqId = a.master := by
      have hsame : s'.group = st.sched.group := by unfold Scheduler.group; rw [hf.config]
      unfold groupOfId groupOf
      rw [hy, Option.map_some, Option.getD_some, hgroup, hsame]
      omega
    rw [hid]
    exact ⟨hf.toSameQueues, hlt, hroom⟩

/-- A restore shortens the queue. -/
theorem tryCandidates_restore_measure {seqId : ℕ} {ranks : List ℕ} {st st' : PrefillState}
    (hmem : seqId ∈ st.queue)
    (hhost : st.sched.cacheSeqHasHostBlocks seqId = true) (h : tryCandidates seqId ranks st = (.ok true, st')) :
    st'.sched.config = st.sched.config ∧ st'.placesLeft = st.placesLeft ∧ st'.queue.length < st.queue.length := by
  induction ranks with
  | nil => cases h
  | cons dpIdx ranks ih =>
    have hpos : 0 < st.queue.length := List.length_pos_of_mem hmem
    unfold tryCandidates at h
    rw [if_pos hhost] at h
    split at h
    case h_1 => cases h
    case h_2 s hres =>
      cases h
      have hf := (cacheTryRestoreHostBlocks_true hres).toSameQueues
      have hc : ((st.withSched s).placeRestored dpIdx seqId).sched.config = st.sched.config :=
        (config_placeRestored _ dpIdx seqId).trans hf.config
      refine ⟨hc, placesLeft_congr hc rfl, ?_⟩
      rw [queue_placeRestored, queue_withSched_of_same hf, List.length_tail]
      omega
    case h_3 s hres =>
      obtain rfl := cacheTryRestoreHostBlocks_false hres
      exact ih h

/-- An admission takes a place and lets the queue grow by less than the ranks tried. -/
theorem tryCandidates_admit_measure {seqId : ℕ} {ranks : List ℕ} {st st' : PrefillState}
    (hranks : ∀ d ∈ ranks, d < st.sched.dp) (hmem : seqId ∈ st.queue)
    (hhost : st.sched.cacheSeqHasHostBlocks seqId = false) (h : tryCandidates seqId ranks st = (.ok true, st')) :
    st'.sched.config = st.sched.config ∧ st'.placesLeft < st.placesLeft ∧
      st'.queue.length + 2 ≤ st.queue.length + ranks.length := by
  induction ranks generalizing st with
  | nil => cases h
  | cons dpIdx ranks ih =>
    have hrank := hranks dpIdx List.mem_cons_self
    have hpos : 0 < st.queue.length := List.length_pos_of_mem hmem
    unfold tryCandidates at h
    rw [if_neg (by simp [hhost])] at h
    split at h
    case h_1 => cases h
    case h_2 newTokens s htry =>
      cases h
      obtain ⟨hf, hgroup, hroom⟩ := tryOn_some_group htry
      refine ⟨(config_placeAdmitted _ _ _ _).trans hf.config, ?_, ?_⟩
      · have hc : (st.withSched s).popQueue.sched.config = st.sched.config := (config_popQueue _).trans hf.config
        have hplaces : (st.withSched s).popQueue.placesLeft = st.placesLeft := placesLeft_congr hc rfl
        have hd : dpIdx < (st.withSched s).popQueue.sched.dp := by
          unfold Scheduler.dp at hrank ⊢
          rwa [hc]
        have hg : s.groupOfId seqId < (st.withSched s).popQueue.sched.group := by
          unfold Scheduler.group at hgroup ⊢
          rwa [hc]
        have hroom' : (st.withSched s).popQueue.numSeqs dpIdx (s.groupOfId seqId) <
            max (st.withSched s).popQueue.sched.config.maxNumSeqs 1 := by
          rw [hc]
          exact hroom
        rw [← hplaces]
        exact placesLeft_join seqId newTokens hd hg hroom'
      · rw [queue_placeAdmitted, queue_withSched_of_same hf, List.length_tail, List.length_cons]
        omega
    -- a rank that refuses may preempt one sequence, which goes back to the queue
    case h_3 s htry =>
      obtain ⟨hconfig, hkeep, hlen⟩ := tryOn_none_queue htry
      have hhost' : (st.withSched s).sched.cacheSeqHasHostBlocks seqId = false := (tryOn_none_noHost htry).trans hhost
      have hranks' : ∀ d ∈ ranks, d < (st.withSched s).sched.dp := by
        intro d hd
        have hlt := hranks d (List.mem_cons_of_mem _ hd)
        unfold Scheduler.dp at hlt ⊢
        unfold withSched
        rwa [hconfig]
      obtain ⟨hc, hplaces, hlen'⟩ := ih hranks' (hkeep _ hmem) hhost' h
      refine ⟨hc.trans hconfig, ?_, ?_⟩
      · exact hplaces.trans_eq (placesLeft_congr hconfig rfl)
      · rw [List.length_cons]
        omega

omit [Xxh3] in
theorem routeCandidates_length (s : Scheduler) (seqId : ℕ) : (s.routeCandidates seqId).1.length ≤ s.dp + 1 := by
  have hdp : 1 ≤ s.dp := s.config.one_le_dp
  unfold routeCandidates
  dsimp only
  split
  · simp
  · simp
  · simp
  · split
    · simp
    · split
      · simp
      · split
        · simp
        · rw [List.length_cons]
          refine Nat.succ_le_succ ((List.length_filter_le _ _).trans ?_)
          simp
  · simp

theorem AdmitStep.config {st st' : PrefillState} (h : AdmitStep W st st') : st'.sched.config = st.sched.config := by
  cases h with
  | routed => exact (routeCandidates_frame st.sched _ 0).config
  | tried _ _ _ _ htry => exact (tryOn_none_queue htry).1
  | restored _ _ _ hrestore =>
    exact (config_placeRestored _ _ _).trans (cacheTryRestoreHostBlocks_true hrestore).config
  | admitted _ _ _ _ htry => exact (config_placeAdmitted _ _ _ _).trans (tryOn_some_group htry).1.config

/-- What an iteration of the admission loop that places a sequence makes smaller. -/
def loopMeasure (st : PrefillState) : ℕ := (st.sched.dp + 1) * st.placesLeft + st.queue.length

theorem tryCandidates_loopMeasure {seqId : ℕ} {st st' : PrefillState} (hhead : st.queue.head? = some seqId)
    (h : tryCandidates seqId (st.sched.routeCandidates seqId).1 (st.withSched (st.sched.routeCandidates seqId).2)
      = (.ok true, st')) : st'.loopMeasure < st.loopMeasure := by
  have hframe := (routeCandidates_frame st.sched seqId 0).toSameQueues
  have hqueue := queue_withSched_of_same hframe
  have hmem : seqId ∈ (st.withSched (st.sched.routeCandidates seqId).2).queue :=
    hqueue ▸ List.mem_of_mem_head? hhead
  have hplaces : (st.withSched (st.sched.routeCandidates seqId).2).placesLeft = st.placesLeft :=
    placesLeft_congr hframe.config rfl
  have hdp : (st.withSched (st.sched.routeCandidates seqId).2).sched.dp = st.sched.dp := by
    unfold Scheduler.dp withSched
    rw [hframe.config]
  have hranks : ∀ d ∈ (st.sched.routeCandidates seqId).1,
      d < (st.withSched (st.sched.routeCandidates seqId).2).sched.dp :=
    fun d hd => hdp ▸ routeCandidates_lt st.sched seqId d hd
  have hlen := routeCandidates_length st.sched seqId
  unfold loopMeasure
  cases hhost : (st.withSched (st.sched.routeCandidates seqId).2).sched.cacheSeqHasHostBlocks seqId with
  | true =>
    obtain ⟨hc, hp, hq⟩ := tryCandidates_restore_measure hmem hhost h
    have hdp' : st'.sched.dp = st.sched.dp := by unfold Scheduler.dp at *; rw [hc, hdp]
    rw [hqueue] at hq
    rw [hp, hplaces, hdp']
    omega
  | false =>
    obtain ⟨hc, hp, hq⟩ := tryCandidates_admit_measure hranks hmem hhost h
    have hdp' : st'.sched.dp = st.sched.dp := by unfold Scheduler.dp at *; rw [hc, hdp]
    rw [hqueue] at hq
    rw [hplaces] at hp
    rw [hdp']
    have hmul : (st.sched.dp + 1) * st'.placesLeft + (st.sched.dp + 1) ≤ (st.sched.dp + 1) * st.placesLeft := by
      rw [← Nat.mul_succ]
      exact Nat.mul_le_mul_left _ hp
    omega

/-- With more fuel than the measure the loop does not depend on the fuel. -/
theorem admitLoop_fuel {fuel fuel' : ℕ} {st : PrefillState} (h : st.loopMeasure < fuel)
    (h' : st.loopMeasure < fuel') :
    admitLoop fuel st = admitLoop fuel' st := by
  induction fuel generalizing fuel' st with
  | zero => omega
  | succ fuel ih =>
    obtain ⟨fuel', rfl⟩ : ∃ n, fuel' = n + 1 := ⟨fuel' - 1, by omega⟩
    unfold admitLoop
    cases hhead : st.queue.head? with
    | none => rfl
    | some seqId =>
      dsimp only
      split
      case h_1 => rfl
      case h_2 => rfl
      case h_3 st₁ htry =>
        have hlt := tryCandidates_loopMeasure hhead htry
        exact ih (by omega) (by omega)

omit [Xxh3] in
theorem loopMeasure_lt_admissionFuel {st : PrefillState} (h : ∀ d g, 0 ≤ st.numSeqs d g) :
    st.loopMeasure < st.admissionFuel := by
  have hle : st.placesLeft ≤ (max st.sched.config.maxNumSeqs 1).toNat * st.sched.group * st.sched.dp := by
    unfold placesLeft
    have hg : ∀ d, ∑ g ∈ Finset.range st.sched.group,
      (max st.sched.config.maxNumSeqs 1 - st.numSeqs d g).toNat ≤
        (max st.sched.config.maxNumSeqs 1).toNat * st.sched.group := by
      intro d
      refine (Finset.sum_le_card_nsmul _ _ (max st.sched.config.maxNumSeqs 1).toNat fun g _ => ?_).trans ?_
      · have := h d g
        omega
      · simp [Nat.mul_comm]
    refine (Finset.sum_le_card_nsmul _ _ _ fun d _ => hg d).trans ?_
    simp [Nat.mul_comm]
  unfold loopMeasure admissionFuel
  have hmul := Nat.mul_le_mul_left (st.sched.dp + 1) hle
  dsimp only
  omega

omit [Xxh3] in
theorem continueSeq_numSeqs_nonneg {dpIdx : ℕ} {st : PrefillState} (seqId : ℕ) (h : ∀ d g, 0 ≤ st.numSeqs d g) :
    ∀ d g, 0 ≤ (continueSeq dpIdx st seqId).numSeqs d g := by
  unfold continueSeq
  split
  · exact h
  · dsimp only
    split
    · exact h
    · intro d g
      have hdg := h d g
      by_cases hd : d = dpIdx
      · subst hd
        by_cases hg : g = st.sched.groupOf ‹_›
        · simp only [join, withSched, hg, Function.update_self]
          have := h d (st.sched.groupOf ‹_›)
          omega
        · simpa [join, withSched, Function.update_of_ne hg] using hdg
      · simpa [join, withSched, Function.update_of_ne hd] using hdg

omit [Xxh3] in
theorem continueAll_numSeqs_nonneg (s : Scheduler) : ∀ d g, 0 ≤ (init s).continueAll.numSeqs d g := by
  have hfold : ∀ (dpIdx : ℕ) (ids : List ℕ) (st : PrefillState), (∀ d g, 0 ≤ st.numSeqs d g) →
      ∀ d g, 0 ≤ (ids.foldl (continueSeq dpIdx) st).numSeqs d g := fun dpIdx ids st h =>
    List.foldlRecOn ids (continueSeq dpIdx) (motive := fun st => ∀ d g, 0 ≤ st.numSeqs d g) h
      fun st hst seqId _ => continueSeq_numSeqs_nonneg seqId hst
  have hinit : ∀ d g, 0 ≤ (init s).numSeqs d g := fun _ _ => le_rfl
  exact List.foldlRecOn _ continueRank (motive := fun st => ∀ d g, 0 ≤ st.numSeqs d g) hinit
    fun st hst dpIdx _ => hfold dpIdx (st.sched.prefilling dpIdx) (st.takePrefilling dpIdx) hst

/-- **The admission loop of `schedule_prefill` ends by itself**: more fuel changes nothing. -/
theorem admissionFuel_suffices (s : Scheduler) {fuel : ℕ} (h : (init s).continueAll.admissionFuel ≤ fuel) :
    admitLoop fuel (init s).continueAll = admitLoop (init s).continueAll.admissionFuel (init s).continueAll := by
  have hlt := loopMeasure_lt_admissionFuel (continueAll_numSeqs_nonneg s)
  exact admitLoop_fuel (hlt.trans_le h) hlt

end PrefillState

end NanoEngine
