import NanoEngine.Engine.Step

/-!
# NanoEngine.Engine.Rules — invariant rules for the loops of an engine step

A test is asked at every point where a loop of the step turns to a sequence, and an invariant that one turn keeps when
it passes its test is kept by the loop, also by a `schedule` that fails.

* `RankTest`: one candidate rank of the head of the queue, restored or admitted (`tryRank`).
* `DecodeTest`: one sequence of the decode pass.
* `PostTest`: one sequence of the postprocessing.
* `EngineState.stepPasses`: all tests of one step.
-/

namespace NanoEngine

namespace PrefillState

variable [Xxh3]

/-- One rank of the loop over `route_candidates`: `true` when it takes the sequence. -/
def tryRank (seqId dpIdx : ℕ) (st : PrefillState) : Except PyErr Bool × PrefillState :=
  if st.sched.cacheSeqHasHostBlocks seqId then
    match st.sched.cacheTryRestoreHostBlocks seqId dpIdx with
    | (.error e, s) => (.error e, st.withSched s)
    | (.ok true, s) => (.ok true, (st.withSched s).placeRestored dpIdx seqId)
    | (.ok false, s) => (.ok false, st.withSched s)
  else
    match st.tryOn seqId dpIdx with
    | (.error e, s) => (.error e, st.withSched s)
    | (.ok (some newTokens), s) => (.ok true, (st.withSched s).placeAdmitted dpIdx seqId newTokens)
    | (.ok none, s) => (.ok false, st.withSched s)

theorem tryCandidates_cons (seqId dpIdx : ℕ) (ranks : List ℕ) (st : PrefillState) :
    tryCandidates seqId (dpIdx :: ranks) st =
      match st.tryRank seqId dpIdx with
      | (.ok false, st) => tryCandidates seqId ranks st
      | r => r := by
  rw [tryCandidates, tryRank, tryOn]
  split
  case isTrue =>
    cases st.sched.cacheTryRestoreHostBlocks seqId dpIdx with
    | mk r s =>
      cases r with
      | error e => rfl
      | ok b => cases b <;> rfl
  case isFalse =>
    cases st.sched.tryAllocatePrefill seqId dpIdx (st.numSeqs dpIdx) (st.numTokens dpIdx) with
    | mk r s =>
      cases r with
      | error e => rfl
      | ok o => cases o <;> rfl

/-- A test of one candidate rank: state, sequence and rank. -/
abbrev RankTest := PrefillState → ℕ → ℕ → Bool

/-- `W` holds at every rank tried for the sequence. -/
def ranksPass (W : RankTest) (seqId : ℕ) : List ℕ → PrefillState → Bool
  | [], _ => true
  | dpIdx :: ranks, st =>
    W st seqId dpIdx && match st.tryRank seqId dpIdx with
      | (.ok false, st) => ranksPass W seqId ranks st
      | _ => true

/-- `W` holds at every rank that the admission loop tries. -/
def loopPasses (W : RankTest) : ℕ → PrefillState → Bool
  | 0, _ => true
  | fuel + 1, st =>
    match st.queue.head? with
    | none => true
    | some seqId =>
      let routed := st.sched.routeCandidates seqId
      ranksPass W seqId routed.1 (st.withSched routed.2) &&
        match tryCandidates seqId routed.1 (st.withSched routed.2) with
        | (.ok true, st) => loopPasses W fuel st
        | _ => true

variable {I : PrefillState → Prop} {H : ℕ → Prop} {W : RankTest}

/-- What one candidate rank keeps, the candidate loop keeps. -/
theorem tryCandidates_rule {seqId : ℕ} (htry : ∀ st dpIdx, I st → W st seqId dpIdx = true →
    I (st.tryRank seqId dpIdx).2)
    {ranks : List ℕ} {st : PrefillState} (hpass : ranksPass W seqId ranks st = true) (h : I st) :
    I (tryCandidates seqId ranks st).2 := by
  induction ranks generalizing st with
  | nil => exact h
  | cons dpIdx ranks ih =>
    rw [ranksPass, Bool.and_eq_true] at hpass
    have hnext := htry st dpIdx h hpass.1
    rw [tryCandidates_cons]
    replace hpass := hpass.2
    split
    case h_1 st' heq =>
      rw [heq] at hpass hnext
      exact ih hpass hnext
    case h_2 => exact hnext

/-- What routing and every candidate rank keep, the admission loop keeps; `H` is what is known of a queued sequence. -/
theorem admitLoop_rule (hhead : ∀ st seqId, I st → st.queue.head? = some seqId → H seqId)
    (hroute : ∀ st seqId, I st → I (st.withSched (st.sched.routeCandidates seqId).2))
    (htry : ∀ st seqId dpIdx, I st → H seqId → W st seqId dpIdx = true → I (st.tryRank seqId dpIdx).2)
    {fuel : ℕ} {st : PrefillState} (hpass : loopPasses W fuel st = true) (h : I st) : I (admitLoop fuel st).2 := by
  induction fuel generalizing st with
  | zero => exact h
  | succ fuel ih =>
    rw [admitLoop]
    rw [loopPasses] at hpass
    split
    case h_1 => exact h
    case h_2 seqId hseq =>
      rw [hseq] at hpass
      simp only [Bool.and_eq_true] at hpass
      have hH := hhead st seqId h hseq
      have hnext := tryCandidates_rule (fun st dpIdx hst => htry st seqId dpIdx hst hH) hpass.1 (hroute st seqId h)
      replace hpass := hpass.2
      dsimp only
      split
      case h_1 e st' heq =>
        rw [heq] at hnext
        exact hnext
      case h_2 st' heq =>
        rw [heq] at hnext
        exact hnext
      case h_3 st' heq =>
        rw [heq] at hpass hnext
        exact ih hpass hnext

omit [Xxh3] in
/-- What taking a queue and every continuation keep, the continuations of all ranks keep. -/
theorem continueAll_rule (hmem : ∀ st dpIdx seqId, I st → seqId ∈ st.sched.prefilling dpIdx → H seqId)
    (htake : ∀ st dpIdx, I st → I (st.takePrefilling dpIdx))
    (hcontinue : ∀ st dpIdx seqId, I st → H seqId → I (continueSeq dpIdx st seqId))
    {st : PrefillState} (h : I st) :
    I st.continueAll := by
  unfold continueAll
  refine List.foldlRecOn _ continueRank (motive := I) h fun st hst dpIdx _ => ?_
  unfold continueRank
  refine List.foldlRecOn _ (continueSeq dpIdx) (motive := I) (htake st dpIdx hst) fun st' hst' seqId hseq => ?_
  exact hcontinue st' dpIdx seqId hst' (hmem st dpIdx seqId hst hseq)

end PrefillState

namespace Scheduler

variable [Xxh3]

/-- What every sequence of the decode pass keeps, the pass of a rank keeps. -/
theorem decodeSeqs_rule {I : DecodeState → Prop} {H : ℕ → Prop} {D : DecodeTest} {dpIdx : ℕ}
    (hseq : ∀ st seqId, I st → H seqId → D st seqId dpIdx = true → I (decodeSeq dpIdx st seqId))
    {ids : List ℕ}
    {st : DecodeState} (hids : ∀ id ∈ ids, H id) (hpass : decodeSeqsPass D dpIdx ids st = true) (h : I st) :
    I (ids.foldl (decodeSeq dpIdx) st) := by
  induction ids generalizing st with
  | nil => exact h
  | cons seqId ids ih =>
    rw [decodeSeqsPass, Bool.and_eq_true] at hpass
    exact ih (fun id hid => hids id (List.mem_cons_of_mem _ hid)) hpass.2
      (hseq st seqId h (hids seqId List.mem_cons_self) hpass.1)

/-- `W` and `D` hold along a `schedule` call, whatever it returns. -/
def scheduleTested (W : PrefillState.RankTest) (D : DecodeTest) (s : Scheduler) : Bool :=
  let st := (PrefillState.init { s with currentStep := s.currentStep + 1 }).continueAll
  PrefillState.loopPasses W st.admissionFuel st &&
    match { s with currentStep := s.currentStep + 1 }.schedulePrefill with
    | (.ok prefill, s) => prefill.any (fun seqs => !seqs.isEmpty) || decodeRanksPass D (List.range s.dp) s
    | (.error _, _) => true

/-- A test of one sequence of the postprocessing. -/
abbrev PostTest := Scheduler → ℕ → Bool

def postprocessGroupPasses (P : PostTest) (dpIdx : ℕ) :
    List ℕ → List (List ℤ) → List (List ℚ) → Scheduler → Bool
  | [], _, _, _ => true
  | seqId :: seqIds, rows, logprobs, s =>
    P s seqId && postprocessGroupPasses P dpIdx seqIds rows.tail logprobs.tail
      (s.postprocessSeq dpIdx seqId rows.head? (logprobs.head?.getD []))

def postprocessGroupsPass (P : PostTest) :
    ℕ → List (List ℕ) → List (List (List ℤ)) → List (List (List ℚ)) → Scheduler → Bool
  | _, [], _, _, _ => true
  | groupIdx, seqIds :: groups, rows, logprobs, s =>
    match rows.head? with
    | none => postprocessGroupsPass P (groupIdx + 1) groups rows.tail logprobs.tail s
    | some groupRows =>
      postprocessGroupPasses P (groupIdx / s.group) seqIds groupRows (logprobs.head?.getD []) s &&
        postprocessGroupsPass P (groupIdx + 1) groups rows.tail logprobs.tail
          (postprocessGroup (groupIdx / s.group) seqIds groupRows (logprobs.head?.getD []) s)

/-- `postprocess_impl` starts with the queues without the scheduled ids. -/
def postprocessStart (s : Scheduler) (dpGroupSeqIds : List (List ℕ)) : Scheduler :=
  { s with
    lastStepTokenIds := fun _ => none
    running := fun d => (s.running d).filter (fun id => decide (id ∉ scheduledIds s.group dpGroupSeqIds d)) }

/-- `P` holds at every sequence that `postprocess_impl` turns to. -/
def postprocessPasses (P : PostTest) (s : Scheduler) (dpGroupSeqIds : List (List ℕ))
    (dpGroupTokenIds : List (List (List ℤ))) (dpGroupTokenLogprobs : List (List (List ℚ))) : Bool :=
  postprocessGroupsPass P 0 dpGroupSeqIds dpGroupTokenIds dpGroupTokenLogprobs (s.postprocessStart dpGroupSeqIds)

section postprocess

variable {I : Scheduler → Prop} {H : ℕ → Prop} {P : PostTest}
  (hseq : ∀ s seqId dpIdx row logprobs, I s → H seqId → P s seqId = true →
    I (s.postprocessSeq dpIdx seqId row logprobs))

include hseq

theorem postprocessGroup_rule {dpIdx : ℕ} {ids : List ℕ} {rows : List (List ℤ)}
    {logprobs : List (List ℚ)} {s : Scheduler}
    (hids : ∀ id ∈ ids, H id) (hpass : postprocessGroupPasses P dpIdx ids rows logprobs s = true) (h : I s) :
    I (postprocessGroup dpIdx ids rows logprobs s) := by
  induction ids generalizing rows logprobs s with
  | nil => exact h
  | cons seqId ids ih =>
    rw [postprocessGroupPasses, Bool.and_eq_true] at hpass
    exact ih (fun id hid => hids id (List.mem_cons_of_mem _ hid)) hpass.2
      (hseq s seqId dpIdx _ _ h (hids seqId List.mem_cons_self) hpass.1)

theorem postprocessGroups_rule {groupIdx : ℕ} {groups : List (List ℕ)} {rows : List (List (List ℤ))}
    {logprobs : List (List (List ℚ))} {s : Scheduler} (hids : ∀ ids ∈ groups, ∀ id ∈ ids, H id)
    (hpass : postprocessGroupsPass P groupIdx groups rows logprobs s = true) (h : I s) :
    I (postprocessGroups groupIdx groups rows logprobs s) := by
  induction groups generalizing groupIdx rows logprobs s with
  | nil => exact h
  | cons ids groups ih =>
    have htail : ∀ ids' ∈ groups, ∀ id ∈ ids', H id :=
      fun ids' hids' => hids ids' (List.mem_cons_of_mem _ hids')
    rw [postprocessGroupsPass] at hpass
    rw [postprocessGroups]
    cases hrows : rows.head? with
    | none =>
      simp only [hrows] at hpass
      exact ih htail hpass h
    | some groupRows =>
      simp only [hrows, Bool.and_eq_true] at hpass
      exact ih htail hpass.2 (postprocessGroup_rule hseq (hids ids List.mem_cons_self) hpass.1 h)

/-- What every sequence of the result keeps, `postprocess_impl` keeps. -/
theorem postprocessImpl_rule {groups : List (List ℕ)} {rows : List (List (List ℤ))}
    {logprobs : List (List (List ℚ))}
    {s : Scheduler} (hids : ∀ ids ∈ groups, ∀ id ∈ ids, H id)
    (hpass : s.postprocessPasses P groups rows logprobs = true)
    (h : I (s.postprocessStart groups)) : I (s.postprocessImpl groups rows logprobs) :=
  postprocessGroups_rule hseq hids hpass h

end postprocess

end Scheduler

/-- The tests along one engine step. -/
def EngineState.stepPasses [Xxh3] (W : PrefillState.RankTest) (D : Scheduler.DecodeTest) (P : Scheduler.PostTest)
    (x : EngineState) (rows : List (List (List ℤ))) (logprobs : List (List (List ℚ))) : Bool :=
  x.sched.scheduleTested W D && match x.sched.schedule with
    | (.error _, _) => true
    | (.ok r, s) =>
      let s := s.completeSwaps r
      s.isKvOnly r || s.postprocessPasses P r.filteredDpGroupSeqIds rows logprobs

/-! ## Without tests -/

section untested

variable [Xxh3]

theorem PrefillState.loopPasses_true (fuel : ℕ) (st : PrefillState) :
    loopPasses (fun _ _ _ => true) fuel st = true := by
  have hranks : ∀ (seqId : ℕ) (ranks : List ℕ) (st : PrefillState),
    ranksPass (fun _ _ _ => true) seqId ranks st = true := by
    intro seqId ranks
    induction ranks with
    | nil => exact fun _ => rfl
    | cons dpIdx ranks ih =>
      intro st
      rw [ranksPass, Bool.true_and]
      split
      · exact ih _
      · rfl
  induction fuel generalizing st with
  | zero => rfl
  | succ fuel ih =>
    rw [loopPasses]
    split
    · rfl
    · dsimp only
      rw [hranks, Bool.true_and]
      split
      · exact ih _
      · rfl

theorem Scheduler.decodeRanksPass_true (ranks : List ℕ) (s : Scheduler) :
    decodeRanksPass (fun _ _ _ => true) ranks s = true := by
  have hseqs : ∀ (dpIdx : ℕ) (ids : List ℕ) (st : DecodeState), decodeSeqsPass (fun _ _ _ =>
    true) dpIdx ids st = true := by
    intro dpIdx ids
    induction ids with
    | nil => exact fun _ => rfl
    | cons id ids ih =>
      intro st
      rw [decodeSeqsPass, Bool.true_and]
      exact ih _
  induction ranks generalizing s with
  | nil => rfl
  | cons dpIdx ranks ih =>
    rw [decodeRanksPass, hseqs, Bool.true_and]
    exact ih _

theorem Scheduler.postprocessGroupsPass_true (groupIdx : ℕ) (groups : List (List ℕ)) (rows : List (List (List ℤ)))
    (logprobs : List (List (List ℚ))) (s : Scheduler) :
    postprocessGroupsPass (fun _ _ => true) groupIdx groups rows logprobs s = true := by
  have hgroup :
    ∀ (dpIdx : ℕ) (ids : List ℕ) (rows : List (List ℤ)) (logprobs : List (List ℚ)) (s : Scheduler),
      postprocessGroupPasses (fun _ _ => true) dpIdx ids rows logprobs s = true := by
    intro dpIdx ids
    induction ids with
    | nil => exact fun _ _ _ => rfl
    | cons id ids ih =>
      intro rows logprobs s
      rw [postprocessGroupPasses, Bool.true_and]
      exact ih _ _ _
  induction groups generalizing groupIdx rows logprobs s with
  | nil => rfl
  | cons ids groups ih =>
    rw [postprocessGroupsPass]
    split
    · exact ih _ _ _ _
    · rw [hgroup, Bool.true_and]
      exact ih _ _ _ _

theorem Scheduler.scheduleTested_true (s : Scheduler) :
    s.scheduleTested (fun _ _ _ => true) (fun _ _ _ => true) = true := by
  unfold scheduleTested
  simp only [PrefillState.loopPasses_true, Scheduler.decodeRanksPass_true, Bool.true_and, Bool.or_true]
  split <;> rfl

/-- Tests that always pass hold along every step. -/
theorem EngineState.stepPasses_true (x : EngineState) (rows : List (List (List ℤ)))
    (logprobs : List (List (List ℚ))) :
    x.stepPasses (fun _ _ _ => true) (fun _ _ _ => true) (fun _ _ => true) rows logprobs = true := by
  unfold stepPasses Scheduler.postprocessPasses
  simp only [Scheduler.scheduleTested_true, Scheduler.postprocessGroupsPass_true, Bool.true_and, Bool.or_true]
  split <;> rfl

end untested

end NanoEngine
