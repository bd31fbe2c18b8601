import NanoEngine.Engine.Rules
import NanoEngine.Prefill.Budget

/-!
# NanoEngine.Prefill.Partial — one partial prefill a rank

What a whole step does to the batches and to the chunked prefills of the ranks, with one group.

* `BudgetResult`: every batch of a result is within its budget, and nothing outside of it is partial.
* `postprocessImpl_partial`: after postprocessing the chunked prefills are the partial rows of the batches.
* `OnePartial`: between steps a rank has one chunked prefill, and its running sequences have reached their targets.
-/

namespace NanoEngine

open Counting Scheduler PrefillState Transition

/-- The sequence has reached its target. -/
def Scheduler.Complete (s : Scheduler) (id : ℕ) : Prop :=
  ∀ a, s.seqTable id = some a → promptTarget a ≤ a.numTokens

/-! ## The decode pass -/

section decode

variable [Xxh3]

theorem decodeSeq_prefilling (d : ℕ) (st : DecodeState) (seqId : ℕ) :
    (decodeSeq d st seqId).sched.prefilling = st.sched.prefilling := by
  have hf := (cacheEnsureBlocksForSeq_frame st.sched seqId false).toSameQueues
  unfold decodeSeq
  dsimp only
  split
  case isTrue => rfl
  case isFalse =>
    split
    case h_1 e s₁ heq =>
      rw [heq] at hf
      exact (preemptImpl_spec s₁ d seqId).prefilling.trans hf.prefilling
    case h_2 s₁ heq =>
      rw [heq] at hf
      exact hf.prefilling

theorem decodeRank_prefilling {s : Scheduler} {d : ℕ} (hd : d < s.dp) :
    (s.decodeRank d).2.config = s.config ∧ (s.decodeRank d).2.prefilling = s.prefilling := by
  have hpass : ∀ (ids : List ℕ) (st : DecodeState), (ids.foldl (decodeSeq d) st).sched.prefilling =
    st.sched.prefilling := by
    intro ids
    induction ids with
    | nil => exact fun _ => rfl
    | cons id ids ih => exact fun st => (ih _).trans (decodeSeq_prefilling d st id)
  have hold := hpass (s.running d) (s.decodeStart d)
  obtain ⟨hconfig, -, -⟩ := decodeSeqs_frame (d := d) (s.running d) (s.decodeStart d)
  unfold decodeRank
  dsimp only
  generalize (s.running d).foldl (decodeSeq d) (s.decodeStart d) = st at hold hconfig
  replace hconfig : st.sched.config = s.config := hconfig
  have hd₁ : d < st.sched.dp := by
    unfold Scheduler.dp at *
    rwa [hconfig]
  obtain ⟨he, -⟩ := decodeDummies_enters (s := { st.sched with
    running := Function.update st.sched.running d st.skipped }) (d := d) st.groupLens (List.range st.sched.group) hd₁
    fun g hg => List.mem_range.1 hg
  exact ⟨he.config.trans hconfig, he.prefilling.trans hold⟩

theorem decodeRanks_prefilling {s : Scheduler} {ranks : List ℕ} (hranks : ∀ d ∈ ranks, d < s.dp) :
    (decodeRanks ranks s).2.prefilling = s.prefilling := by
  induction ranks generalizing s with
  | nil => rfl
  | cons d ranks ih =>
    obtain ⟨hconfig, hold⟩ := decodeRank_prefilling (hranks d List.mem_cons_self)
    refine (ih fun d' hd' => ?_).trans hold
    have := hranks d' (List.mem_cons_of_mem _ hd')
    unfold Scheduler.dp at *
    rwa [hconfig]

end decode

/-! ## A whole `schedule` call -/

/-- A result whose batches are within the budget of their ranks; nothing outside of the batches is partial. -/
structure BudgetResult (s : Scheduler) (r : ScheduleResult) : Prop where
  sound : SoundTable s
  groups : r.dpGroupSeqIds = r.dpSeqIds
  length : r.dpSeqIds.length = s.dp
  prefilling : ∀ d < s.dp, s.prefilling d = []
  complete : ∀ d < s.dp, ∀ id ∈ s.running d, r.isPrefill = false ∨ id ∉ r.dpSeqIds.getD d [] → s.Complete id
  batch : r.isPrefill = true → ∀ d < s.dp, ∃ numTokens numSeqs,
    RankBatch s.config s.seqTable (r.dpSeqIds.getD d []) numTokens numSeqs

section schedule

variable [Xxh3] {L : Finset ℕ} {s s' : Scheduler}

omit [Xxh3] in
/-- With one group every rank has one batch. -/
theorem dpGroupSeqIds_one {dpSeqIds : List (List ℕ)} (hgroup : s.group = 1) (hlen : dpSeqIds.length = s.dp)
    (isPrefill : Bool) : (s.makeScheduleResult dpSeqIds isPrefill).dpGroupSeqIds = dpSeqIds := by
  change (List.range s.dp).flatMap (fun d => (List.range s.group).map fun _ => dpSeqIds.getD d []) = dpSeqIds
  rw [hgroup]
  refine List.ext_getElem (by simp [hlen]) fun d hd hd' => ?_
  have hmap : (List.range s.dp).flatMap (fun d => (List.range 1).map fun _ => dpSeqIds.getD d []) =
      (List.range s.dp).map fun d => dpSeqIds.getD d [] := List.flatMap_pure_eq_map _ _
  simp only [hmap, List.getElem_map, List.getElem_range]
  rw [List.getD_eq_getElem?_getD, List.getElem?_eq_getElem hd', Option.getD_some]

/-- Between steps the running sequences are complete, and a rank has one chunked prefill. -/
structure OnePartial (s : Scheduler) : Prop where
  sound : SoundTable s
  complete : ∀ d < s.dp, ∀ id ∈ s.running d, s.Complete id
  one : ∀ d < s.dp, (s.prefilling d).length ≤ 1
  below : ∀ d < s.dp, ∀ id ∈ s.prefilling d, ∀ a, s.seqTable id = some a →
    0 ≤ a.numTokens ∧ a.numTokens < promptTarget a

omit [Xxh3] in
theorem OnePartial.continuable (h : OnePartial s) (hcont : s.continuesInPrompt = true) {d : ℕ} (hd : d < s.dp) :
    BudgetInv.Continuable s d := by
  refine ⟨h.one d hd, fun id hid a ha => ⟨(h.below d hd id hid a ha).1, ?_⟩⟩
  unfold continuesInPrompt at hcont
  have hrank := List.all_eq_true.1 (List.all_eq_true.1 hcont d (List.mem_range.2 hd)) id hid
  rw [ha] at hrank
  simpa using hrank

theorem schedulePrefill_budget {prefill : List (List ℕ)} (hone : OneQueue L [] s)
    (hdum : ∀ id ∈ s.dummySeqIds, s.isReservedId id = true) (hmode : s.config.mode ≠ .decode)
    (hgroup : s.group = 1) (h : OnePartial s) (hcont : s.continuesInPrompt = true)
    (hpass : admitPasses budgetTest (PrefillState.init s).continueAll.admissionFuel (PrefillState.init s).continueAll
      = true) (hs : s.schedulePrefill = (.ok prefill, s')) :
    ∃ st, BudgetInv L [] st ∧ st.sched = s' ∧ prefill = (List.range s'.dp).map st.scheduled ∧
      s'.config = s.config ∧
      ∀ d < s'.dp, s'.prefilling d = [] := by
  have hinit : BudgetInv L [] (PrefillState.init s) := by
    refine ⟨⟨hone, hdum, fun _ => List.nodup_nil, by simp [PrefillState.init]⟩, h.sound, fun d hd id hid _ => ?_,
      fun d _ => RankBatch.nil _ _⟩
    exact h.complete d hd id hid
  obtain ⟨hall, hnone⟩ := hinit.continueAll hgroup (fun _ => rfl) fun d hd => h.continuable hcont hd
  unfold schedulePrefill at hs
  dsimp only at hs
  split at hs
  case h_1 => cases hs
  case h_2 st hloop =>
    cases hs
    have hsteps := admitLoop_steps (fun st seqId d ranks _ hW => by
      simp only [budgetTest, queueTest, Bool.and_eq_true] at hW
      exact hW.1.2) hpass hloop
    clear hloop
    have hinv : BudgetInv L [] st ∧ st.sched.config = s.config ∧
        st.sched.prefilling = (PrefillState.init s).continueAll.sched.prefilling := by
      induction hsteps with
      | refl => exact ⟨hall, config_continueAll _, rfl⟩
      | tail _ hstep ih =>
        obtain ⟨hinv, hconfig, hpre⟩ := ih
        have hgroup' := (congrArg SchedulerConfig.group hconfig).trans hgroup
        exact ⟨hinv.step (hconfig ▸ hmode) hgroup' hstep, hstep.config.trans hconfig, hstep.prefilling.trans hpre⟩
    refine ⟨st, hinv.1, rfl, rfl, hinv.2.1, fun d hd => ?_⟩
    rw [hinv.2.2]
    exact hnone d (lt_of_lt_of_eq hd (congrArg SchedulerConfig.dp hinv.2.1))

theorem schedule_budget {r : ScheduleResult} (hone : OneQueue L [] s)
    (hdum : ∀ id ∈ s.dummySeqIds, s.isReservedId id = true) (hfresh : ∀ id ∈ L, s.isReservedId id = false)
    (hmode : s.config.mode ≠ .decode) (hgroup : s.group = 1) (h : OnePartial s) (hcont : s.continuesInPrompt = true)
    (hpass : s.prefillPasses budgetTest = true) (hs : s.schedule = (.ok r, s')) : BudgetResult s' r := by
  have hone₀ : OneQueue L [] { s with currentStep := s.currentStep + 1 } := hone.move (fun _ => rfl) fun _ _ => rfl
  have h₀ : OnePartial { s with currentStep := s.currentStep + 1 } := ⟨h.sound, h.complete, h.one, h.below⟩
  unfold schedule at hs
  split at hs
  case h_1 => cases hs
  case h_2 prefill s₁ hpre =>
    obtain ⟨st, hinv, rfl, rfl, hc₁, hnone₁⟩ :=
      schedulePrefill_budget (s := { s with currentStep := s.currentStep + 1 })
      hone₀ hdum hmode hgroup h₀ hcont hpass hpre
    have hgroup₁ : st.sched.group = 1 := (congrArg SchedulerConfig.group hc₁).trans hgroup
    split at hs
    · cases hs
      have hget : ∀ d < st.sched.dp, ((List.range st.sched.dp).map st.scheduled).getD d [] = st.scheduled d := by
        intro d hd
        simp [List.getD_eq_getElem?_getD, hd]
      refine ⟨hinv.sound, dpGroupSeqIds_one hgroup₁ (by simp) true,
        by simp [makeScheduleResult], hnone₁, fun d hd id hid hnot => ?_,
        fun _ d hd => ⟨st.numTokens d 0, st.numSeqs d 0, ?_⟩⟩
      · rcases hnot with hfalse | hnot
        · cases hfalse
        · change id ∉ ((List.range st.sched.dp).map st.scheduled).getD d [] at hnot
          rw [hget d hd] at hnot
          exact hinv.complete d hd id hid hnot
      · change RankBatch _ _ (((List.range st.sched.dp).map st.scheduled).getD d []) _ _
        rw [hget d hd]
        exact hinv.batch d hd
    · cases hs
      rename_i hempty
      have hnone : ∀ d < st.sched.dp, st.scheduled d = [] := by
        intro d hd
        by_contra hne
        refine hempty (List.any_eq_true.2 ⟨st.scheduled d, List.mem_map_of_mem (List.mem_range.2 hd), ?_⟩)
        simpa using hne
      -- the decode pass reads a queue without partial sequences as one that is tracked by no record
      have hq : TrackedQueues Prefills.init st.sched := by
        intro d hd id hid a ha hlt
        have hrun : id ∈ st.sched.running d := hid.resolve_right fun hmem => by
          rw [hnone₁ d hd] at hmem
          cases hmem
        have := hinv.complete d hd id hrun (by simp [hnone d hd]) a ha
        omega
      obtain ⟨hs₂, hq₂⟩ := decodeRanks_tracked List.nodup_range
        (fun d hd => List.mem_range.1 hd) hinv.one hinv.dummies
        (fun id hid => by rw [isReservedId_congr hc₁]; exact hfresh id hid) hinv.sound hq
      obtain ⟨hpass₂, hc₂, -⟩ := decodeRanks_passInv List.nodup_range
        (fun d hd => List.mem_range.1 hd) hinv.one hinv.dummies
        (fun id hid => by rw [isReservedId_congr hc₁]; exact hfresh id hid)
      have hpre₂ := decodeRanks_prefilling (s := st.sched) (fun d hd => List.mem_range.1 hd)
      have hgroup₂ := (congrArg SchedulerConfig.group hc₂).trans hgroup₁
      have hlen : (decodeRanks (List.range st.sched.dp) st.sched).1.length =
          (decodeRanks (List.range st.sched.dp) st.sched).2.dp := by
        rw [← hpass₂.runs.length_eq, List.length_range]
        exact (congrArg SchedulerConfig.dp hc₂).symm
      refine ⟨hs₂, dpGroupSeqIds_one hgroup₂ hlen false, hlen, fun d hd => ?_, fun d hd id hid _ a ha => ?_,
        fun hfalse => (by cases hfalse)⟩
      · change (decodeRanks (List.range st.sched.dp) st.sched).2.prefilling d = []
        rw [hpre₂]
        exact hnone₁ d (lt_of_lt_of_eq hd (congrArg SchedulerConfig.dp hc₂))
      · by_contra hlt
        obtain ⟨-, run, hrun, -⟩ := hq₂ d hd id (.inl hid) a ha (by omega)
        cases hrun

end schedule

section swaps

variable {s s' : Scheduler} {r : ScheduleResult} {id : ℕ}

theorem Scheduler.Complete.keepsProgress {R : Sequence → Sequence → Prop} (h : s.Complete id) (ht : TableRel R s s')
    (hR : ∀ a b, R a b → b.numTokens = a.numTokens ∧ promptTarget b = promptTarget a) : s'.Complete id := by
  intro b hb
  cases ha : s.seqTable id with
  | none =>
    rw [ht.missing id ha] at hb
    cases hb
  | some a =>
    obtain ⟨b', hb', hab⟩ := ht.entry id a ha
    obtain rfl := Option.some.inj (hb'.symm.trans hb)
    obtain ⟨hnum, htarget⟩ := hR a b' hab
    rw [hnum, htarget]
    exact h a ha

/-- The swaps of a step change no chunk. -/
theorem BudgetResult.completeSwaps (h : BudgetResult s r) : BudgetResult (s.completeSwaps r) r := by
  have hf := completeSwaps_frame s r
  have hdp : (s.completeSwaps r).dp = s.dp := congrArg SchedulerConfig.dp hf.config
  refine ⟨h.sound.completeSwaps r, h.groups, h.length.trans hdp.symm, fun d hd => ?_, fun d hd id hid hnot => ?_,
    fun hprefill d hd => ?_⟩
  · rw [hf.prefilling]
    exact h.prefilling d (hdp ▸ hd)
  · rw [hf.running] at hid
    exact (h.complete d (hdp ▸ hd) id hid hnot).keepsProgress hf.table fun a b hab =>
      ⟨hab.numTokens, hab.sameChunk.target⟩
  · obtain ⟨numTokens, numSeqs, hbatch⟩ := h.batch hprefill d (hdp ▸ hd)
    rw [hf.config]
    refine ⟨numTokens, numSeqs, hbatch.congr fun id _ a ha => ?_⟩
    obtain ⟨b, hb, hab⟩ := hf.table.entry id a ha
    exact ⟨b, hb, hab.sameChunk⟩

end swaps

/-! ## The batches -/

/-- The batch has as many tokens and rows as the budget of a rank allows, and no row is empty. -/
structure WireBatch.WithinBudget (config : SchedulerConfig) (batch : WireBatch) : Prop where
  tokens : (batch.inputIds.length : ℤ) ≤ max 1 config.maxNumBatchedTokens
  rows : (batch.rows.length : ℤ) ≤ max 1 config.maxNumSeqs
  nonempty : ∀ row ∈ batch.rows, row.inputIds ≠ []

theorem inputIds_sequenceRefsRunnerIn (seqs : List Sequence) (isPrefill : Bool) :
    (sequenceRefsRunnerIn seqs isPrefill).inputIds = seqs.flatMap fun seq => (seq.packed isPrefill).inputIds := by
  have hfold : ∀ (seqs : List Sequence) (batch : WireBatch), (seqs.foldl WireBatch.push batch).inputIds =
      batch.inputIds ++ seqs.flatMap fun seq => (seq.packed batch.isPrefill).inputIds := by
    intro seqs
    induction seqs with
    | nil => intro batch; simp
    | cons item seqs ih =>
      intro batch
      rw [List.foldl_cons, ih, List.flatMap_cons]
      simp [WireBatch.push]
  exact hfold seqs (WireBatch.empty isPrefill)

namespace RankBatch

variable {config : SchedulerConfig} {entry : ℕ → Option Sequence} {ids : List ℕ} {numTokens numSeqs : ℤ}

/-- What is packed of the chunks is no more than their tokens. -/
theorem length_packed_le (h : ∀ id ∈ ids, ∃ a, entry id = some a ∧ a.PromptChunk) :
    (((ids.filterMap entry).flatMap fun seq => (seq.packed true).inputIds).length : ℤ) ≤ chunkTokens entry ids := by
  induction ids with
  | nil => exact le_refl _
  | cons id ids ih =>
    obtain ⟨a, ha, hchunk⟩ := h id List.mem_cons_self
    have hrest := ih fun id' hid' => h id' (List.mem_cons_of_mem _ hid')
    have hrow := hchunk.length_packed.2
    unfold chunkTokens at hrest ⊢
    rw [List.filterMap_cons_some ha, List.flatMap_cons, List.length_append, List.map_cons, List.sum_cons, ha,
      Option.map_some, Option.getD_some]
    push_cast
    omega

theorem map_seqId (h : ∀ id ∈ ids, ∃ a, entry id = some a ∧ a.PromptChunk)
    (hsound : ∀ id a, entry id = some a → a.Sound id) :
    (sequenceRefsRunnerIn (ids.filterMap entry) true).rows.map (·.seqId) = ids := by
  rw [rows_sequenceRefsRunnerIn, List.map_map]
  induction ids with
  | nil => rfl
  | cons id ids ih =>
    obtain ⟨a, ha, -⟩ := h id List.mem_cons_self
    rw [List.filterMap_cons_some ha, List.map_cons, ih fun id' hid' => h id' (List.mem_cons_of_mem _ hid')]
    exact congrArg (· :: ids) ((a.packed_seqId true).trans (hsound id a ha).seqId)

/-- **The batch of a rank is within its budget.** -/
theorem withinBudget (h : RankBatch config entry ids numTokens numSeqs)
    (hsound : ∀ id a, entry id = some a → a.Sound id) :
    (sequenceRefsRunnerIn (ids.filterMap entry) true).WithinBudget config where
  tokens := by
    have hlen := length_packed_le h.rows
    have hspent := h.spent
    have htokens := h.tokens
    rw [inputIds_sequenceRefsRunnerIn]
    omega
  rows := by
    have hlen := congrArg List.length (map_seqId h.rows hsound)
    have hplaces := h.places
    have hseqs := h.seqs
    rw [List.length_map] at hlen
    omega
  nonempty := by
    intro row hrow
    rw [rows_sequenceRefsRunnerIn] at hrow
    obtain ⟨a, ha, rfl⟩ := List.mem_map.1 hrow
    obtain ⟨id, hid, hentry⟩ := List.mem_filterMap.1 ha
    obtain ⟨a', ha', hchunk⟩ := h.rows id hid
    obtain rfl := Option.some.inj (hentry.symm.trans ha')
    exact List.ne_nil_of_length_pos hchunk.length_packed.1

end RankBatch

/-- The batches of a prefill result. -/
theorem BudgetResult.withinBudget {s : Scheduler} {r : ScheduleResult} (h : BudgetResult s r)
    (hprefill : r.isPrefill = true) :
    ∀ batch ∈ s.serializeRunBatches r, batch.WithinBudget s.config := by
  intro batch hbatch
  unfold serializeRunBatches at hbatch
  rw [h.groups, hprefill] at hbatch
  obtain ⟨ids, hids, rfl⟩ := List.mem_map.1 hbatch
  obtain ⟨d, hd, rfl⟩ := List.getElem_of_mem hids
  obtain ⟨numTokens, numSeqs, hrank⟩ := h.batch hprefill d (h.length ▸ hd)
  rw [List.getD_eq_getElem?_getD, List.getElem?_eq_getElem hd, Option.getD_some] at hrank
  exact hrank.withinBudget h.sound

/-- A partial sequence of a batch is its last row. -/
theorem BudgetResult.last_row {s : Scheduler} {r : ScheduleResult} (h : BudgetResult s r)
    (hprefill : r.isPrefill = true)
    {d id : ℕ} (hd : d < s.dp) (hid : id ∈ r.dpSeqIds.getD d []) {a : Sequence} (ha : s.seqTable id = some a)
    (hlt : a.numTokens < promptTarget a) : (r.dpSeqIds.getD d []).getLast? = some id ∧ 0 ≤ a.numTokens ∧
      ∃ batch, (s.serializeRunBatches r)[d]? = some batch ∧ batch.rows.getLast?.map (·.seqId) = some id := by
  obtain ⟨numTokens, numSeqs, hrank⟩ := h.batch hprefill d hd
  have hlast := (hrank.last id hid a ha hlt).2
  obtain ⟨a', ha', hchunk⟩ := hrank.rows id hid
  obtain rfl := Option.some.inj (ha'.symm.trans ha)
  have hnonneg := hchunk.nonneg
  have hpos := hchunk.pos
  refine ⟨hlast, by omega, sequenceRefsRunnerIn ((r.dpSeqIds.getD d []).filterMap s.seqTable) true, ?_, ?_⟩
  · unfold serializeRunBatches
    have hd' : d < r.dpSeqIds.length := h.length.symm ▸ hd
    rw [h.groups, hprefill, List.getElem?_map, List.getElem?_eq_getElem hd', Option.map_some,
      List.getD_eq_getElem?_getD, List.getElem?_eq_getElem hd', Option.getD_some]
  · rw [← List.getLast?_map, RankBatch.map_seqId hrank.rows h.sound]
    exact hlast

/-! ## Postprocessing -/

section postprocess

variable [Xxh3] {s s₀ : Scheduler} {d seqId : ℕ} {a : Sequence}

omit [Xxh3] in
/-- A postprocessed sequence that is below its target has not moved. -/
theorem Scheduler.PostEntry.below {id : ℕ} {a b : Sequence} (k : PostEntry a b) (h : a.Sound id)
    (hlt : b.numTokens < promptTarget b) :
    a.numTokens = b.numTokens ∧ promptTarget a = promptTarget b := by
  have htarget : promptTarget b = promptTarget a := by
    unfold promptTarget
    rw [k.numPromptTokens, k.numCheckpointedTokens]
  obtain ⟨applied, htokens, hnum, -⟩ := k.appended
  refine ⟨?_, htarget.symm⟩
  by_cases happlied : applied = []
  · rw [if_pos happlied] at hnum
    exact hnum.symm
  · have hle := h.target
    rw [if_neg happlied, List.length_append] at hnum
    push_cast at hnum
    omega

/-- Below its target a sequence waits for its next chunk. -/
theorem postprocessSeq_below (hreal : seqId ∉ s.dummySeqIds) (ha : s.seqTable seqId = some a)
    (hlt : a.numTokens < promptTarget a) (tokens : List ℤ) (logprobs : List ℚ) :
    (s.postprocessSeq d seqId (some tokens) logprobs).running = s.running ∧
      (s.postprocessSeq d seqId (some tokens) logprobs).prefilling =
        Function.update s.prefilling d (s.prefilling d ++ [seqId]) := by
  have hf := (commitHbmBlocks_frame s seqId a.numTokens).toSameQueues
  unfold postprocessSeq
  rw [if_neg hreal, ha]
  dsimp only
  rw [if_pos hlt]
  refine ⟨hf.running, ?_⟩
  unfold pushPrefilling updateSeq
  dsimp only
  rw [hf.prefilling]

/-- A sequence that has reached its target runs on, or leaves the rank. -/
theorem postprocessSeq_reached (hreal : seqId ∉ s.dummySeqIds) (ha : s.seqTable seqId = some a)
    (hle : promptTarget a ≤ a.numTokens) (tokens : List ℤ) (logprobs : List ℚ) :
    (s.postprocessSeq d seqId (some tokens) logprobs).prefilling = s.prefilling ∧
      ∀ d' id, id ∈ (s.postprocessSeq d seqId (some tokens) logprobs).running d' →
        id ∈ s.running d' ∨ id = seqId := by
  have hspec := postprocessAppend_spec s seqId a tokens logprobs ha
  unfold postprocessSeq
  rw [if_neg hreal, ha]
  dsimp only
  rw [if_neg (by omega), ← hspec.prefilling, ← hspec.running]
  generalize (s.postprocessAppend seqId a tokens logprobs).2 = s₁
  unfold postprocessPlace
  split
  · exact ⟨rfl, fun _ _ hid => .inl hid⟩
  · split
    · exact ⟨rfl, fun _ _ hid => .inl hid⟩
    · have hf := (cacheEnsureBlocksForSeq_frame s₁ seqId false).toSameQueues
      refine ⟨hf.prefilling, fun d' id hid => ?_⟩
      refine (mem_pushRunning.1 hid).imp (fun hmem => ?_) And.right
      exact hf.running ▸ hmem

/-- The state of the loop over the result `dpSeqIds`, started from `s₀`. -/
structure PostPartial (s₀ : Scheduler) (dpSeqIds : List (List ℕ)) (s : Scheduler) : Prop where
  config : s.config = s₀.config
  dummySeqIds : s.dummySeqIds = s₀.dummySeqIds
  sound : SoundTable s
  origin : ∀ id b, s.seqTable id = some b → b.numTokens < promptTarget b →
    ∃ a, s₀.seqTable id = some a ∧ a.numTokens = b.numTokens ∧ promptTarget a = promptTarget b
  complete : ∀ d < s.dp, ∀ id ∈ s.running d, s.Complete id
  below : ∀ d < s.dp, ∀ id ∈ s.prefilling d, id ∈ dpSeqIds.getD d [] ∧ id ∉ s.dummySeqIds ∧
    ∃ b, s.seqTable id = some b ∧ b.numTokens < promptTarget b

theorem PostPartial.postprocessSeq {dpSeqIds : List (List ℕ)} (h : PostPartial s₀ dpSeqIds s)
    (hid : seqId ∈ s.dummySeqIds ∨ seqId ∈ dpSeqIds.getD d []) (tokens : List ℤ) (logprobs : List ℚ) :
    PostPartial s₀ dpSeqIds (s.postprocessSeq d seqId (some tokens) logprobs) := by
  by_cases hreal : seqId ∈ s.dummySeqIds
  · unfold Scheduler.postprocessSeq
    rw [if_pos hreal]
    exact h
  · replace hid := hid.resolve_left hreal
    have hf := postprocessSeq_frame s d seqId (some tokens) logprobs
    cases ha : s.seqTable seqId with
    | none =>
      unfold Scheduler.postprocessSeq
      rw [if_neg hreal, ha]
      exact h
    | some a =>
      have hsound := h.sound seqId a ha
      obtain ⟨b, hb, hab⟩ := postprocessSeq_entry s d seqId (some tokens) logprobs ha
      -- the target was reached, and the sequence goes to `running`, or it was not, and it stays a partial prefill
      have hplaced : promptTarget a ≤ a.numTokens ∨ a.numTokens < promptTarget a := le_or_gt _ _
      have hcomplete : ∀ id, s.Complete id → (s.postprocessSeq d seqId (some tokens) logprobs).Complete id := by
        intro id hdone c hc
        by_cases hne : id = seqId
        · subst hne
          obtain rfl := Option.some.inj (hb.symm.trans hc)
          by_contra hlt
          have hold := hab.below hsound (by omega)
          have := hdone a ha
          omega
        · exact hdone c (hf.others id hne ▸ hc)
      have hdp : (s.postprocessSeq d seqId (some tokens) logprobs).dp = s.dp := congrArg SchedulerConfig.dp hf.config
      have hothers : ∀ id, id ≠ seqId → (∃ c, s.seqTable id = some c ∧ c.numTokens < promptTarget c) →
          ∃ c, (s.postprocessSeq d seqId (some tokens) logprobs).seqTable id = some c ∧
            c.numTokens < promptTarget c := by
        rintro id hne ⟨c, hc, hlt⟩
        exact ⟨c, (hf.others id hne).trans hc, hlt⟩
      refine ⟨hf.config.trans h.config, hf.dummySeqIds.trans h.dummySeqIds, h.sound.postprocessSeq d seqId _ logprobs,
        fun id c hc hlt => ?_, fun d' hd' id hrun => ?_, fun d' hd' id hpre => ?_⟩
      · by_cases hne : id = seqId
        · subst hne
          obtain rfl := Option.some.inj (hb.symm.trans hc)
          obtain ⟨hnum, htarget⟩ := hab.below hsound hlt
          obtain ⟨a₀, ha₀, hnum₀, htarget₀⟩ := h.origin id a ha (by omega)
          exact ⟨a₀, ha₀, hnum₀.trans hnum, htarget₀.trans htarget⟩
        · exact h.origin id c (hf.others id hne ▸ hc) hlt
      · rcases hplaced with hle | hlt
        · rcases (postprocessSeq_reached hreal ha hle tokens logprobs).2 d' id hrun with hrun | rfl
          · exact hcomplete id (h.complete d' (hdp ▸ hd') id hrun)
          · refine hcomplete id fun c hc => ?_
            obtain rfl := Option.some.inj (ha.symm.trans hc)
            exact hle
        · rw [(postprocessSeq_below hreal ha hlt tokens logprobs).1] at hrun
          exact hcomplete id (h.complete d' (hdp ▸ hd') id hrun)
      · rw [hf.dummySeqIds]
        rcases hplaced with hle | hlt
        · rw [(postprocessSeq_reached hreal ha hle tokens logprobs).1] at hpre
          obtain ⟨hlisted, hnot, c, hc, hltc⟩ := h.below d' (hdp ▸ hd') id hpre
          have hne : id ≠ seqId := by
            rintro rfl
            obtain rfl := Option.some.inj (ha.symm.trans hc)
            omega
          exact ⟨hlisted, hnot, hothers id hne ⟨c, hc, hltc⟩⟩
        · -- the entry of the sequence keeps its counters
          have hlast : ∃ c, (s.postprocessSeq d seqId (some tokens) logprobs).seqTable seqId = some c ∧
              c.numTokens < promptTarget c := by
            obtain ⟨applied, -, hnum, himp⟩ := hab.appended
            have htarget : promptTarget b = promptTarget a := by
              unfold promptTarget
              rw [hab.numPromptTokens, hab.numCheckpointedTokens]
            have hnil : applied = [] := by
              by_contra happlied
              have := himp happlied
              omega
            rw [if_pos hnil] at hnum
            exact ⟨b, hb, by rw [htarget, hnum]; exact hlt⟩
          rw [(postprocessSeq_below hreal ha hlt tokens logprobs).2] at hpre
          by_cases hne : id = seqId
          · subst hne
            refine ⟨?_, hreal, hlast⟩
            by_cases hdd : d' = d
            · exact hdd ▸ hid
            · rw [Function.update_of_ne hdd] at hpre
              exact (h.below d' (hdp ▸ hd') id hpre).1
          · have hpre : id ∈ s.prefilling d' := by
              by_cases hdd : d' = d
              · subst hdd
                rw [Function.update_self] at hpre
                exact (List.mem_append.1 hpre).resolve_right fun hmem => hne (List.mem_singleton.1 hmem)
              · rwa [Function.update_of_ne hdd] at hpre
            obtain ⟨hlisted, hnot, hlow⟩ := h.below d' (hdp ▸ hd') id hpre
            exact ⟨hlisted, hnot, hothers id hne hlow⟩

/-- What every listed sequence with its row keeps, the loops keep; with one group list `d` is the one of rank `d`. -/
theorem postprocessGroups_answered {P : Scheduler → Prop} {groups : List (List ℕ)}
    (hgroup : ∀ s, P s → s.group = 1)
    (hP : ∀ s d seqId tokens logprobs, seqId ∈ groups.getD d [] → P s →
      P (s.postprocessSeq d seqId (some tokens) logprobs))
    {rows : List (List (List ℤ))} (hrows : rows.map List.length = groups.map List.length)
    (logprobs : List (List (List ℚ)))
    (h : P s) : P (postprocessGroups 0 groups rows logprobs s) := by
  -- within a rank, then over the ranks: every sequence meets its own row
  have hone : ∀ (d : ℕ) (ids : List ℕ), (∀ id ∈ ids, id ∈ groups.getD d []) → ∀ (rows : List (List ℤ))
      (logprobs : List (List ℚ)) (s : Scheduler), rows.length = ids.length → P s →
      P (postprocessGroup d ids rows logprobs s) := by
    intro d ids
    induction ids with
    | nil => exact fun _ _ _ _ _ h => h
    | cons id ids ih =>
      intro hids rows logprobs s hlen h
      obtain ⟨row, rows, rfl⟩ : ∃ row rest, rows = row :: rest := List.exists_cons_of_length_pos (by simp [hlen])
      exact ih (fun id' hid' => hids id' (List.mem_cons_of_mem _ hid')) rows _ _ (by simpa using hlen)
        (hP s d id row _ (hids id List.mem_cons_self) h)
  have hall : ∀ (rest : List (List ℕ)) (k : ℕ),
    (∀ i, ∀ ids, rest[i]? = some ids → groups.getD (k + i) [] = ids) →
      ∀ (rows : List (List (List ℤ))) (logprobs : List (List (List ℚ))) (s : Scheduler),
      rows.map List.length = rest.map List.length → P s → P (postprocessGroups k rest rows logprobs s) := by
    intro rest
    induction rest with
    | nil => exact fun _ _ _ _ _ _ h => h
    | cons ids rest ih =>
      intro k hrest rows logprobs s hlen h
      obtain ⟨row, rows, rfl⟩ : ∃ row more, rows = row :: more :=
        List.exists_cons_of_length_pos (by have := congrArg List.length hlen; simp at this; omega)
      simp only [List.map_cons, List.cons.injEq] at hlen
      have hk : groups.getD k [] = ids := hrest 0 ids rfl
      have htail : ∀ i ids', rest[i]? = some ids' → groups.getD (k + 1 + i) [] = ids' := by
        intro i ids' hi
        rw [show k + 1 + i = k + (i + 1) by omega]
        exact hrest (i + 1) ids' (by rwa [List.getElem?_cons_succ])
      unfold postprocessGroups
      dsimp only [List.head?_cons, List.tail_cons]
      rw [hgroup s h, Nat.div_one]
      exact ih (k + 1) htail rows _ _ hlen.2 (hone k ids (fun id hid => hk.symm ▸ hid) row _ s hlen.1 h)
  refine hall groups 0 (fun i ids hi => ?_) rows logprobs s hrows h
  rw [Nat.zero_add, List.getD_eq_getElem?_getD, hi, Option.getD_some]

/-- **After postprocessing** the running sequences are complete, and the chunked prefills are partial rows of the
result. -/
theorem postprocessImpl_partial {r : ScheduleResult} (h : BudgetResult s r) (hgroup : s.group = 1)
    (hgrouped : Grouped s r)
    (hqueued : ∀ d < s.dp, ∀ id ∈ s.running d, id ∉ s.dummySeqIds) {rows : List (List (List ℤ))}
    (hrows : r.rowsMatch rows = true) (logprobs : List (List (List ℚ))) :
    PostPartial s r.dpSeqIds (s.postprocessImpl r.filteredDpGroupSeqIds rows logprobs) := by
  have hlen : r.filteredDpGroupSeqIds.length = s.dp := by rw [hgrouped.length, hgroup, Nat.mul_one]
  have hlisted : ∀ d id, id ∈ r.filteredDpGroupSeqIds.getD d [] →
    id ∈ s.dummySeqIds ∨ id ∈ r.dpSeqIds.getD d [] := by
    intro d id hid
    have hd : d < s.dp := by
      by_contra hge
      rw [List.getD_eq_getElem?_getD, List.getElem?_eq_none (by omega)] at hid
      cases hid
    by_cases hreal : id ∈ s.dummySeqIds
    · exact .inl hreal
    · refine .inr ((hgrouped.scheduled d hd id hreal).1 ?_)
      unfold scheduledIds
      rw [List.mem_flatMap]
      refine ⟨d, List.mem_filter.2 ⟨List.mem_range.2 (hlen.symm ▸ hd), ?_⟩, hid⟩
      rw [hgroup, Nat.div_one]
      exact decide_eq_true rfl
  have hstart : PostPartial s r.dpSeqIds (s.postprocessStart r.filteredDpGroupSeqIds) := by
    refine ⟨rfl, rfl, h.sound, fun id b hb _ => ⟨b, hb, rfl, rfl⟩, fun d hd id hid => ?_, fun d hd id hid => ?_⟩
    · obtain ⟨hrun, hnot⟩ := List.mem_filter.1 hid
      have hnot : id ∉ scheduledIds s.group r.filteredDpGroupSeqIds d := of_decide_eq_true hnot
      exact h.complete d hd id hrun (.inr fun hmem => hnot ((hgrouped.scheduled d hd id (hqueued d hd id hrun)).2 hmem))
    · change id ∈ s.prefilling d at hid
      rw [h.prefilling d hd] at hid
      cases hid
  refine postprocessGroups_answered (P := PostPartial s r.dpSeqIds)
    (fun s' hs' => (congrArg SchedulerConfig.group hs'.config).trans hgroup) (fun s' d id tokens lps hid hs' => ?_)
    (of_decide_eq_true hrows) logprobs hstart
  exact hs'.postprocessSeq (hs'.dummySeqIds ▸ hlisted d id hid) tokens lps

end postprocess

end NanoEngine
