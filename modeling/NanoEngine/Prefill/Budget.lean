import NanoEngine.Prefill.Passes

/-!
# NanoEngine.Prefill.Budget — the batch of a rank against its budget

* `Sequence.PromptChunk`: a chunk that starts inside the prompt; the packer sends at least one token of it and at most
  all.
* `RankBatch`: the sequences put into the batch of a rank, the tokens and places they take, and which of them may be
  partial.
* `BudgetInv`: the invariant of the continuations and of the admission loop.
* `budgetTest`: an admitted sequence starts inside its prompt.
-/

namespace NanoEngine

open Counting Scheduler PrefillState Transition

/-! ## One row -/

/-- The chunk from `prefill_start_offset` to `num_tokens` is not empty and starts inside the prompt. -/
structure Sequence.PromptChunk (a : Sequence) : Prop where
  nonneg : 0 ≤ a.prefillStartOffset
  inPrompt : a.prefillStartOffset < a.numPromptTokens
  pos : a.prefillStartOffset < a.numTokens
  prompt : a.numPromptTokens ≤ a.tokenIds.length

namespace Sequence

variable {a b : Sequence}

theorem PromptChunk.congr (h : a.PromptChunk) (k : SameChunk a b) : b.PromptChunk where
  nonneg := by
    rw [k.prefillStartOffset]
    exact h.nonneg
  inPrompt := by
    rw [k.prefillStartOffset, k.numPromptTokens]
    exact h.inPrompt
  pos := by
    rw [k.prefillStartOffset, k.numTokens]
    exact h.pos
  prompt := by
    rw [k.numPromptTokens, k.tokenIds]
    exact h.prompt

theorem length_packed_prefill (a : Sequence) : (a.packed true).inputIds.length = a.sliceEnd - a.sliceStart := by
  have hle := a.sliceEnd_le_length
  simp only [packed, if_true, List.length_drop, List.length_take]
  omega

/-- The packer sends at least one token and no more than the chunk has. -/
theorem PromptChunk.length_packed (h : a.PromptChunk) : 0 < (a.packed true).inputIds.length ∧
    ((a.packed true).inputIds.length : ℤ) ≤ a.numTokens - a.prefillStartOffset := by
  have h₁ := h.nonneg
  have h₂ := h.inPrompt
  have h₃ := h.pos
  have h₄ := h.prompt
  rw [length_packed_prefill]
  unfold sliceEnd sliceStart promptLen
  omega

end Sequence

/-! ## The batch of a rank -/

/-- The tokens of the chunks. -/
def chunkTokens (entry : ℕ → Option Sequence) (ids : List ℕ) : ℤ :=
  (ids.map fun id => ((entry id).map fun a => a.numTokens - a.prefillStartOffset).getD 0).sum

/-- `ids` with the counters `numTokens` and `numSeqs` is within the budget, and only its last sequence stops short of
its target, when the budget is spent. -/
structure RankBatch (config : SchedulerConfig) (entry : ℕ → Option Sequence) (ids : List ℕ)
    (numTokens numSeqs : ℤ) :
    Prop where
  rows : ∀ id ∈ ids, ∃ a, entry id = some a ∧ a.PromptChunk
  spent : chunkTokens entry ids = numTokens
  tokens : numTokens ≤ max config.maxNumBatchedTokens 1
  places : numSeqs = ids.length
  seqs : numSeqs ≤ max config.maxNumSeqs 1
  last : ∀ id ∈ ids, ∀ a, entry id = some a → a.numTokens < promptTarget a →
    numTokens = max config.maxNumBatchedTokens 1 ∧ ids.getLast? = some id

namespace RankBatch

variable {config : SchedulerConfig} {entry entry' : ℕ → Option Sequence} {ids : List ℕ}
  {numTokens numSeqs : ℤ} {id : ℕ}
  {a : Sequence}

theorem nil (config : SchedulerConfig) (entry : ℕ → Option Sequence) : RankBatch config entry [] 0 0 where
  rows := fun _ h => by cases h
  spent := rfl
  tokens := by omega
  places := rfl
  seqs := by omega
  last := fun _ h => by cases h

theorem congr (h : RankBatch config entry ids numTokens numSeqs)
    (hentry : ∀ id ∈ ids, ∀ a, entry id = some a → ∃ b, entry' id = some b ∧ a.SameChunk b) :
    RankBatch config entry' ids numTokens numSeqs := by
  refine ⟨fun id hid => ?_, ?_, h.tokens, h.places, h.seqs, fun id hid b hb hlt => ?_⟩
  · obtain ⟨a, ha, hchunk⟩ := h.rows id hid
    obtain ⟨b, hb, hab⟩ := hentry id hid a ha
    exact ⟨b, hb, hchunk.congr hab⟩
  · rw [← h.spent]
    unfold chunkTokens
    refine congrArg List.sum (List.map_congr_left fun id hid => ?_)
    obtain ⟨a, ha, -⟩ := h.rows id hid
    obtain ⟨b, hb, hab⟩ := hentry id hid a ha
    rw [ha, hb, Option.map_some, Option.map_some, hab.numTokens, hab.prefillStartOffset]
  · obtain ⟨a, ha, -⟩ := h.rows id hid
    obtain ⟨b', hb', hab⟩ := hentry id hid a ha
    obtain rfl := Option.some.inj (hb'.symm.trans hb)
    rw [hab.target, hab.numTokens] at hlt
    exact h.last id hid a ha hlt

/-- One more row, within what is left of the budget. -/
theorem concat (h : RankBatch config entry ids numTokens numSeqs) (ha : entry id = some a) (hchunk : a.PromptChunk)
    {newTokens : ℤ} (hnew : a.numTokens - a.prefillStartOffset = newTokens)
    (hbudget : newTokens ≤ max config.maxNumBatchedTokens 1 - numTokens) (hplace : numSeqs < max config.maxNumSeqs 1)
    (hrest : a.numTokens < promptTarget a → newTokens = max config.maxNumBatchedTokens 1 - numTokens) :
    RankBatch config entry (ids ++ [id]) (numTokens + newTokens) (numSeqs + 1) := by
  have hpos := hchunk.pos
  refine ⟨fun id' hid' => ?_, ?_, by omega, ?_, by omega, fun id' hid' a' ha' hlt => ?_⟩
  · rcases List.mem_append.1 hid' with hid' | hid'
    · exact h.rows id' hid'
    · rw [List.mem_singleton.1 hid']
      exact ⟨a, ha, hchunk⟩
  · have hspent := h.spent
    unfold chunkTokens at hspent ⊢
    rw [List.map_append, List.sum_append, hspent]
    simp [ha, hnew]
  · rw [h.places, List.length_append, List.length_singleton]
    push_cast
    omega
  · rcases List.mem_append.1 hid' with hid' | hid'
    · -- a partial row has spent the budget, so that no row follows it
      have hspent := (h.last id' hid' a' ha' hlt).1
      omega
    · obtain rfl := List.mem_singleton.1 hid'
      obtain rfl := Option.some.inj (ha.symm.trans ha')
      have hall := hrest hlt
      exact ⟨by omega, List.getLast?_concat⟩

end RankBatch

/-! ## The test -/

section test

variable [Xxh3]

/-- The cached part of an admitted sequence ends inside its prompt. -/
def startsInPrompt : TryTest := fun st seqId dpIdx _ =>
  match (st.sched.prepareAdmission seqId dpIdx (st.numSeqs dpIdx) (st.numTokens dpIdx)).1 with
  | none => true
  | some a => decide (0 ≤ a.cached) &&
      ((st.sched.seqTable seqId).map fun seq => decide (a.cached < seq.numPromptTokens)).getD true

def budgetTest : TryTest := fun st seqId dpIdx ranks =>
  queueTest st seqId dpIdx ranks && startsInPrompt st seqId dpIdx ranks

end test

/-- No chunked prefill of the rank has come as far as the end of its prompt. -/
def Scheduler.continuesInPrompt (s : Scheduler) : Bool :=
  (List.range s.dp).all fun d => (s.prefilling d).all fun id =>
    ((s.seqTable id).map fun a => decide (a.numTokens < a.numPromptTokens)).getD true

/-- A sequence is in the middle of a chunked prefill on one rank only. -/
theorem OneQueue.prefilling_unique {L : Finset ℕ} {extra : List ℕ} {s : Scheduler}
    (h : OneQueue L extra s) {d d' id : ℕ}
    (hd : d < s.dp) (hd' : d' < s.dp) (hid : id ∈ s.prefilling d) (hid' : id ∈ s.prefilling d') : d = d' := by
  by_contra hne
  have hle := h.le_one id
  have hsub : ({d, d'} : Finset ℕ) ⊆ Finset.range s.dp := by
    intro k hk
    rcases Finset.mem_insert.1 hk with rfl | hk
    · exact Finset.mem_range.2 hd
    · rw [Finset.mem_singleton.1 hk]
      exact Finset.mem_range.2 hd'
  have hsum : ∑ k ∈ ({d, d'} : Finset ℕ), (s.prefilling k).count id ≤ totalCount s.dp s.prefilling id :=
    Finset.sum_le_sum_of_subset hsub
  rw [Finset.sum_pair hne] at hsum
  have := List.count_pos_iff.2 hid
  have := List.count_pos_iff.2 hid'
  unfold queueCount at hle
  omega

/-! ## The invariant -/

structure BudgetInv (L : Finset ℕ) (extra : List ℕ) (st : PrefillState) : Prop extends AdmitInv L extra st where
  sound : SoundTable st.sched
  complete : ∀ d < st.sched.dp, ∀ id ∈ st.sched.running d, id ∉ st.scheduled d →
    ∀ a, st.sched.seqTable id = some a →
    promptTarget a ≤ a.numTokens
  batch : ∀ d < st.sched.dp, RankBatch st.sched.config st.sched.seqTable (st.scheduled d) (st.numTokens d 0)
    (st.numSeqs d 0)

namespace BudgetInv

variable {L : Finset ℕ} {extra : List ℕ} {st : PrefillState} {seqId d : ℕ}

/-- An idle sequence is changed: nothing is asked of it but to stay sound. -/
theorem entry {R : Sequence → Sequence → Prop} {s' : Scheduler} (h : BudgetInv L extra st)
    (hidle : st.sched.Idle seqId) (hinv : AdmitInv L extra (st.withSched s')) (hf : Frame R seqId st.sched s')
    (hR : ∀ a b, st.sched.seqTable seqId = some a → R a b → a.Sound seqId → b.Sound seqId) :
    BudgetInv L extra (st.withSched s') := by
  have hdp : s'.dp = st.sched.dp := congrArg SchedulerConfig.dp hf.config
  refine ⟨hinv, h.sound.frame hf hR, fun d hd id hid hnot a ha => ?_, fun d hd => ?_⟩
  · have hd : d < st.sched.dp := hdp ▸ hd
    change id ∈ s'.running d at hid
    rw [hf.running] at hid
    have hne : id ≠ seqId := fun heq => (hidle d hd).1 (heq ▸ hid)
    exact h.complete d hd id hid hnot a (hf.others id hne ▸ ha)
  · have hd : d < st.sched.dp := hdp ▸ hd
    change RankBatch s'.config s'.seqTable _ _ _
    rw [hf.config]
    refine (h.batch d hd).congr fun id hid a ha => ⟨a, ?_, ⟨rfl, rfl, rfl, rfl, rfl⟩⟩
    have hne : id ≠ seqId := fun heq => (hidle d hd).1 (heq ▸ h.running d id hid)
    rwa [hf.others id hne]

/-- Only the cache was changed. -/
theorem cache (h : BudgetInv L extra st) (c : CacheState) : BudgetInv L extra (st.withSched (st.sched.setCache c)) :=
  ⟨h.toAdmitInv.congr ⟨rfl, rfl, rfl, rfl, rfl, rfl, rfl, rfl, rfl⟩ fun _ _ => rfl,
    h.sound, h.complete, h.batch⟩

/-- An idle sequence joins the batch of a rank. -/
theorem join {a : Sequence} {newTokens : ℤ} (h : BudgetInv L (seqId :: extra) st) (hd : d < st.sched.dp)
    (ha : st.sched.seqTable seqId = some a) (hchunk : a.PromptChunk)
    (hnew : a.numTokens - a.prefillStartOffset = newTokens)
    (hbudget : newTokens ≤ max st.sched.config.maxNumBatchedTokens 1 - st.numTokens d 0)
    (hplace : st.numSeqs d 0 < max st.sched.config.maxNumSeqs 1)
    (hrest : a.numTokens < promptTarget a →
      newTokens = max st.sched.config.maxNumBatchedTokens 1 - st.numTokens d 0) :
    BudgetInv L extra (st.join d 0 seqId newTokens) := by
  have hidle : st.sched.Idle seqId := h.one.idle (by rw [List.count_cons_self]; omega)
  have htable : ∀ id, id ≠ seqId → (st.join d 0 seqId newTokens).sched.seqTable id = st.sched.seqTable id :=
    fun id hid => Function.update_of_ne hid _ _
  have hentry : (st.join d 0 seqId newTokens).sched.seqTable seqId =
      some { a with lastScheduledStep := st.sched.currentStep } := by
    change Function.update _ _ _ _ = _
    rw [Function.update_self]
    change Option.map _ (st.sched.seqTable seqId) = _
    rw [ha]
    rfl
  have hkept : ∀ id b, st.sched.seqTable id = some b →
    ∃ c, (st.join d 0 seqId newTokens).sched.seqTable id = some c ∧
      b.SameChunk c := by
    intro id b hb
    by_cases hid : id = seqId
    · subst hid
      obtain rfl := Option.some.inj (ha.symm.trans hb)
      exact ⟨_, hentry, rfl, rfl, rfl, rfl, rfl⟩
    · exact ⟨b, (htable id hid).trans hb, rfl, rfl, rfl, rfl, rfl⟩
  -- the entry keeps what the row is made of; only rank `d` has a new row
  refine ⟨h.toAdmitInv.join 0 newTokens hd, h.sound.entry htable fun b hb => ?_, fun d' hd' id hid hnot b hb => ?_,
    fun d' hd' => ?_⟩
  · rw [hentry] at hb
    cases hb
    have hs := h.sound seqId a ha
    exact ⟨hs.seqId, hs.target, hs.host⟩
  · have hmem : id ∈ st.sched.running d' ∨ d' = d ∧ id = seqId := mem_pushRunning.1 hid
    change id ∉ Function.update st.scheduled d _ d' at hnot
    have hne : id ≠ seqId := by
      rintro rfl
      rcases hmem with hmem | ⟨rfl, -⟩
      · exact (hidle d' hd').1 hmem
      · rw [Function.update_self] at hnot
        exact hnot (List.mem_append_right _ List.mem_cons_self)
    rw [htable id hne] at hb
    refine h.complete d' hd' id (hmem.resolve_right fun heq => hne heq.2) (fun hold => hnot ?_) b hb
    by_cases hdd : d' = d
    · subst hdd
      rw [Function.update_self]
      exact List.mem_append_left _ hold
    · rwa [Function.update_of_ne hdd]
  · change RankBatch st.sched.config (st.join d 0 seqId newTokens).sched.seqTable (Function.update st.scheduled d _ d')
      (Function.update st.numTokens d _ d' 0) (Function.update st.numSeqs d _ d' 0)
    by_cases hdd : d' = d
    · subst hdd
      rw [Function.update_self, Function.update_self, Function.update_self, Function.update_self, Function.update_self]
      exact ((h.batch d' hd').concat ha hchunk hnew hbudget hplace hrest).congr fun id _ b hb => hkept id b hb
    · rw [Function.update_of_ne hdd, Function.update_of_ne hdd, Function.update_of_ne hdd]
      exact (h.batch d' hd').congr fun id _ b hb => hkept id b hb

/-! ### Continuations -/

/-- The only chunked prefill of a rank goes on, as the first row of the batch. -/
theorem continueSeq (h : BudgetInv L (seqId :: extra) st) (hd : d < st.sched.dp) (hgroup : st.sched.group = 1)
    (hnil : st.scheduled d = []) (hbelow : ∀ a, st.sched.seqTable seqId = some a →
      0 ≤ a.numTokens ∧ a.numTokens < a.numPromptTokens) :
    BudgetInv L extra (PrefillState.continueSeq d st seqId) ∧
      (PrefillState.continueSeq d st seqId).sched.prefilling = st.sched.prefilling := by
  obtain ⟨a, ha, -⟩ := exists_of_unfinished h.one.head_live.1
  obtain ⟨hnonneg, hlt⟩ := hbelow a ha
  have hsound := h.sound seqId a ha
  have hzero : st.sched.groupOf a = 0 := by
    unfold groupOf
    rw [hgroup]
    omega
  have hbatch := h.batch d hd
  rw [hnil] at hbatch
  have htokens : st.numTokens d 0 = 0 := hbatch.spent.symm
  have hseqs : st.numSeqs d 0 = 0 := hbatch.places
  unfold PrefillState.continueSeq
  rw [ha]
  dsimp only
  rw [hzero, htokens]
  generalize hnew : max (min (promptTarget a - a.numTokens) (max st.sched.config.maxNumBatchedTokens 1 - 0)) 0 =
    newTokens
  have htarget : a.numPromptTokens ≤ promptTarget a := by
    unfold promptTarget
    omega
  rw [if_neg (by omega)]
  generalize st.sched.dispatchForMaster 0 (a.numTokens + newTokens) = dispatch
  -- first the chunk is set, then the sequence joins the batch, which is still empty
  have hf : Frame (fun x y => y = x.continueWith newTokens dispatch) seqId st.sched
      (st.sched.updateSeq seqId (fun seq => seq.continueWith newTokens dispatch)) := Frame.of_updateSeq _ _ fun _ => rfl
  have hu : ∀ id, (st.sched.updateSeq seqId (fun seq => seq.continueWith newTokens dispatch)).unfinished id
      = st.sched.unfinished id :=
    unfinished_congr (R := fun x y => y.status = x.status) (fun _ _ hab => hab)
      ((hf.mono fun _ _ hxy => by rw [hxy]; rfl).table fun _ => rfl)
  have h₁ : BudgetInv L (seqId :: extra)
      (st.withSched (st.sched.updateSeq seqId (fun seq => seq.continueWith newTokens dispatch))) := by
    refine h.entry (h.one.idle (by rw [List.count_cons_self]; omega))
      (h.toAdmitInv.congr hf.toSameQueues fun id _ => hu id) hf ?_
    rintro x _ hx rfl hx'
    rw [ha] at hx
    cases hx
    refine ⟨hx'.seqId, hx'.target, fun hne => ?_⟩
    have := hx'.host hne
    omega
  have hentry : (st.sched.updateSeq seqId (fun seq => seq.continueWith newTokens dispatch)).seqTable seqId =
      some (a.continueWith newTokens dispatch) := by simp [updateSeq, ha]
  refine ⟨h₁.join hd hentry ⟨hnonneg, hlt, ?_, hsound.prompt_le⟩ ?_ ?_ ?_ fun hpart => ?_, rfl⟩
  · change a.numTokens < a.numTokens + newTokens
    omega
  · change a.numTokens + newTokens - a.numTokens = newTokens
    omega
  · change newTokens ≤ max st.sched.config.maxNumBatchedTokens 1 - st.numTokens d 0
    omega
  · change st.numSeqs d 0 < max st.sched.config.maxNumSeqs 1
    omega
  · -- a chunk that stops short of the target has taken the whole budget
    change a.numTokens + newTokens < promptTarget a at hpart
    change newTokens = max st.sched.config.maxNumBatchedTokens 1 - st.numTokens d 0
    omega

/-- A rank has at most one chunked prefill, and it goes on inside its prompt. -/
structure Continuable (s : Scheduler) (d : ℕ) : Prop where
  one : (s.prefilling d).length ≤ 1
  below : ∀ id ∈ s.prefilling d, ∀ a, s.seqTable id = some a →
    0 ≤ a.numTokens ∧ a.numTokens < a.numPromptTokens

theorem continueRank (h : BudgetInv L [] st) (hd : d < st.sched.dp) (hgroup : st.sched.group = 1)
    (hnil : st.scheduled d = []) (hcont : Continuable st.sched d) : BudgetInv L [] (st.continueRank d) ∧
      (st.continueRank d).sched.prefilling = Function.update st.sched.prefilling d [] ∧
      (∀ d', d' ≠ d → (st.continueRank d).scheduled d' = st.scheduled d') ∧
      ∀ id, id ∉ st.sched.prefilling d → (st.continueRank d).sched.seqTable id = st.sched.seqTable id := by
  have hone : OneQueue L (st.sched.prefilling d ++ []) (st.takePrefilling d).sched := by
    refine h.one.move (fun id => ?_) fun _ _ => rfl
    have hq := queueCount_setPrefilling hd [] id
    rw [List.append_nil]
    simpa [takePrefilling, withSched] using hq
  have htake : BudgetInv L (st.sched.prefilling d ++ []) (st.takePrefilling d) :=
    ⟨⟨hone, h.dummies, h.nodup, h.running⟩, h.sound, h.complete, h.batch⟩
  unfold PrefillState.continueRank
  obtain hlist | ⟨id, hlist⟩ : st.sched.prefilling d = [] ∨ ∃ id, st.sched.prefilling d = [id] := by
    cases hlist : st.sched.prefilling d with
    | nil => exact .inl rfl
    | cons id ids =>
      have hlen := hcont.one
      rw [hlist, List.length_cons] at hlen
      exact .inr ⟨id, by rw [List.eq_nil_of_length_eq_zero (by omega : ids.length = 0)]⟩
  · rw [hlist] at htake ⊢
    exact ⟨htake, rfl, fun _ _ => rfl, fun _ _ => rfl⟩
  · rw [hlist] at htake ⊢
    have hone := htake.continueSeq hd hgroup hnil fun a ha =>
      hcont.below id (hlist ▸ List.mem_singleton_self id) a ha
    refine ⟨hone.1, hone.2, fun d' hd' => ?_, fun id' hid' => ?_⟩
    · rw [List.foldl_cons, List.foldl_nil]
      unfold PrefillState.continueSeq
      split
      · rfl
      · dsimp only
        split
        · rfl
        · exact Function.update_of_ne hd' _ _
    · exact PrefillInv.continueSeq_others (st.takePrefilling d) d id fun heq =>
        hid' (heq ▸ List.mem_singleton_self _)

/-- After the continuations no chunked prefill is left behind. -/
theorem continueAll (h : BudgetInv L [] st) (hgroup : st.sched.group = 1) (hnil : ∀ d, st.scheduled d = [])
    (hcont : ∀ d < st.sched.dp, Continuable st.sched d) :
    BudgetInv L [] st.continueAll ∧ ∀ d < st.sched.dp, st.continueAll.sched.prefilling d = [] := by
  have hfold : ∀ (ranks : List ℕ) (st' : PrefillState), ranks.Nodup → st'.sched.config = st.sched.config →
      (∀ d ∈ ranks, d < st.sched.dp) → BudgetInv L [] st' →
      (∀ d ∈ ranks, st'.scheduled d = [] ∧ Continuable st'.sched d) →
      (∀ d < st.sched.dp, d ∉ ranks → st'.sched.prefilling d = []) →
      BudgetInv L [] (ranks.foldl PrefillState.continueRank st') ∧
        ∀ d < st.sched.dp, (ranks.foldl PrefillState.continueRank st').sched.prefilling d = [] := by
    intro ranks
    induction ranks with
    | nil => exact fun st' _ _ _ h' _ hdone => ⟨h', fun d hd => hdone d hd (List.not_mem_nil)⟩
    | cons d ranks ih =>
      intro st' hnodup hconfig hlt h' hopen hdone
      have hd : d < st.sched.dp := hlt d List.mem_cons_self
      have hd' : d < st'.sched.dp := by
        unfold Scheduler.dp at *
        rwa [hconfig]
      have hgroup' : st'.sched.group = 1 := by
        unfold Scheduler.group at *
        rwa [hconfig]
      obtain ⟨hnil', hcont'⟩ := hopen d List.mem_cons_self
      obtain ⟨h₁, hpre, hsched, htable⟩ := h'.continueRank hd' hgroup' hnil' hcont'
      rw [List.nodup_cons] at hnodup
      refine ih _ hnodup.2 ((config_continueRank d st').trans hconfig)
        (fun d' hd' => hlt d' (List.mem_cons_of_mem _ hd')) h₁
        (fun d' hmem => ?_) fun d' hlt' hnot => ?_
      · have hne : d' ≠ d := fun heq => hnodup.1 (heq ▸ hmem)
        obtain ⟨hnil₂, hcont₂⟩ := hopen d' (List.mem_cons_of_mem _ hmem)
        refine ⟨(hsched d' hne).trans hnil₂, ?_, fun id hid a ha => ?_⟩
        · rw [hpre, Function.update_of_ne hne]
          exact hcont₂.one
        · rw [hpre, Function.update_of_ne hne] at hid
          refine hcont₂.below id hid a (htable id (fun hin => ?_) ▸ ha)
          -- a sequence waits on one rank only
          have hd₂ : d' < st'.sched.dp := by
            have := hlt d' (List.mem_cons_of_mem _ hmem)
            unfold Scheduler.dp at *
            rwa [hconfig]
          exact hne (h'.one.prefilling_unique hd₂ hd' hid hin)
      · rw [hpre]
        by_cases hdd : d' = d
        · rw [hdd, Function.update_self]
        · rw [Function.update_of_ne hdd]
          exact hdone d' hlt' fun hmem => (List.mem_cons.1 hmem).elim hdd hnot
  exact hfold _ st List.nodup_range rfl (fun d hd => List.mem_range.1 hd) h
    (fun d hd => ⟨hnil d, hcont d (List.mem_range.1 hd)⟩) fun d hd hnot => absurd (List.mem_range.2 hd) hnot

/-! ### Admissions -/

theorem popQueue (h : BudgetInv L extra st) (hhead : st.queue.head? = some seqId) :
    BudgetInv L (seqId :: extra) st.popQueue := by
  have hconfig := config_popQueue st
  have hdp : st.popQueue.sched.dp = st.sched.dp := congrArg SchedulerConfig.dp hconfig
  refine ⟨h.toAdmitInv.popQueue hhead, h.sound.congr (seqTable_popQueue st),
    fun d hd id hid hnot a ha => ?_, fun d hd => ?_⟩
  · rw [running_popQueue] at hid
    rw [seqTable_popQueue] at ha
    exact h.complete d (hdp ▸ hd) id hid hnot a ha
  · rw [hconfig, seqTable_popQueue]
    exact h.batch d (hdp ▸ hd)

/-- A restored sequence runs, outside the result. -/
theorem placeRestored (h : BudgetInv L [] st) (hd : d < st.sched.dp) (hhead : st.queue.head? = some seqId)
    (hcomplete : ∀ a, st.sched.seqTable seqId = some a → promptTarget a ≤ a.numTokens) :
    BudgetInv L [] (st.placeRestored d seqId) := by
  have hdp : st.popQueue.sched.dp = st.sched.dp := congrArg SchedulerConfig.dp (config_popQueue st)
  have h₁ := h.popQueue hhead
  have h₂ : BudgetInv L [] (st.popQueue.withSched (st.popQueue.sched.pushRunning d seqId)) := by
    refine ⟨⟨h₁.one.requeue (queueCount_pushRunning (hdp.symm ▸ hd) seqId) fun _ => rfl,
        h₁.dummies, h₁.nodup,
      fun d' id hid => mem_pushRunning.2 (.inl (h₁.running d' id hid))⟩, h₁.sound,
        fun d' hd' id hid hnot a ha => ?_,
      h₁.batch⟩
    by_cases hne : id = seqId
    · subst hne
      exact hcomplete a (seqTable_popQueue st ▸ ha)
    · refine h₁.complete d' hd' id ?_ hnot a ha
      exact (mem_pushRunning.1 hid).resolve_right fun heq => hne heq.2
  exact h₂.cache _

/-- An admitted sequence runs and is in the result. -/
theorem placeAdmitted {a : Sequence} {newTokens : ℤ} (h : BudgetInv L [] st) (hd : d < st.sched.dp)
    (hgroup : st.sched.group = 1) (hhead : st.queue.head? = some seqId) (ha : st.sched.seqTable seqId = some a)
    (hchunk : a.PromptChunk) (hnew : a.numTokens - a.prefillStartOffset = newTokens)
    (hbudget : newTokens ≤ max st.sched.config.maxNumBatchedTokens 1 - st.numTokens d 0)
    (hplace : st.numSeqs d 0 < max st.sched.config.maxNumSeqs 1)
    (hrest : a.numTokens < promptTarget a →
      newTokens = max st.sched.config.maxNumBatchedTokens 1 - st.numTokens d 0) :
    BudgetInv L [] (st.placeAdmitted d seqId newTokens) := by
  have hconfig := config_popQueue st
  have hdp : st.popQueue.sched.dp = st.sched.dp := congrArg SchedulerConfig.dp hconfig
  have hzero : st.sched.groupOfId seqId = 0 := by
    unfold groupOfId groupOf
    rw [ha, hgroup, Option.map_some, Option.getD_some]
    omega
  rw [← hconfig] at hbudget hplace hrest
  have h₂ := (h.popQueue hhead).join (hdp.symm ▸ hd)
    ((congrFun (seqTable_popQueue st) seqId).trans ha) hchunk hnew hbudget
    hplace hrest
  unfold PrefillState.placeAdmitted
  rw [hzero]
  exact h₂.cache _

/-- A sequence of `running` that is not in the result is put back into `waiting`. -/
theorem preempted {s' : Scheduler} {victim : ℕ} (h : BudgetInv L [] st) (hp : Preempted d victim st.sched s')
    (hinv : AdmitInv L [] (st.withSched s')) : BudgetInv L [] (st.withSched s') := by
  have hdp : s'.dp = st.sched.dp := congrArg SchedulerConfig.dp hp.config
  have hidle : s'.Idle victim := by
    refine hinv.one.idle ?_
    have hmem : victim ∈ s'.waiting := by
      rcases hp.waiting with hw | hw <;> rw [hw] <;> simp
    have := List.count_pos_iff.2 hmem
    change 0 < s'.waiting.count victim + _ + _
    omega
  refine ⟨hinv, h.sound.preempted hp, fun d' hd' id hid hnot a ha => ?_, fun d' hd' => ?_⟩
  · have hne : id ≠ victim := fun heq => (hidle d' hd').1 (heq ▸ hid)
    change id ∈ s'.running d' at hid
    rw [hp.running] at hid
    exact h.complete d' (hdp ▸ hd') id (mem_dropRunning.1 hid).1 hnot a (hp.others id hne ▸ ha)
  · change RankBatch s'.config s'.seqTable _ _ _
    rw [hp.config]
    refine (h.batch d' (hdp ▸ hd')).congr fun id hid a ha => ⟨a, ?_, ⟨rfl, rfl, rfl, rfl, rfl⟩⟩
    have hne : id ≠ victim := fun heq => (hidle d' hd').1 (heq ▸ hinv.running d' id hid)
    rwa [hp.others id hne]

end BudgetInv

/-! ## Steps of the loop -/

section step

variable [Xxh3] {L : Finset ℕ} {st st' : PrefillState}

/-- What an admission takes: no more than is left of the budget, and all of it when it stops short of its target. -/
theorem PrefillState.tryOn_some_row {seqId d : ℕ} {ranks : List ℕ} {newTokens : ℤ}
    {s' : Scheduler} {seq : Sequence}
    (hmode : st.sched.config.mode ≠ .decode) (hgroup : st.sched.group = 1)
    (h : st.tryOn seqId d = (.ok (some newTokens), s')) (hseq : st.sched.seqTable seqId = some seq)
    (hsound : seq.Sound seqId) (htest : startsInPrompt st seqId d ranks = true) :
    ∃ a, s'.seqTable seqId = some a ∧ seq.KeepsRequest a ∧ a.PromptChunk ∧
      a.numTokens - a.prefillStartOffset = newTokens ∧
      newTokens ≤ max st.sched.config.maxNumBatchedTokens 1 - st.numTokens d 0 ∧
      st.numSeqs d 0 < max st.sched.config.maxNumSeqs 1 ∧
      (a.numTokens < promptTarget a → newTokens = max st.sched.config.maxNumBatchedTokens 1 - st.numTokens d 0) := by
  have hcases := tryAllocatePrefill_cases h
  generalize hr : (some newTokens : Option ℤ) = r at hcases
  cases hcases with
  | refused => cases hr
  | preempted => cases hr
  | @admitted adm s₁ s₂ _ hprep hres hfin =>
    obtain rfl := Option.some.inj hr
    obtain ⟨seq', hprepared, -⟩ := prepareAdmission_some hprep
    obtain rfl : seq = seq' := Option.some.inj (hseq.symm.trans hprepared.entry)
    obtain ⟨a, ha, z, hrec, hbegin, -⟩ := (TryCase.admitted_frame hprep hres hfin).entry seq hseq
    have hkeep := hrec.keepsRequest.trans hbegin.toKeepsRequest
    obtain ⟨hnum, hoffset⟩ := hbegin.prefill hmode
    unfold startsInPrompt at htest
    rw [hprep, hseq] at htest
    simp only [Option.map_some, Option.getD_some, Bool.and_eq_true, decide_eq_true_eq] at htest
    obtain ⟨hnonneg, hlt⟩ := htest
    obtain ⟨hmaster, hplace⟩ := chooseMasterGroup_some hprepared.group
    have hzero : adm.master = 0 := by omega
    rw [hzero] at hplace
    -- outside of decode mode the prompt is the target, and the chunk is cut to what is left of the budget
    have hfull : adm.fullLen = promptTarget seq := by
      rw [hprepared.fullLen, fullLen, if_neg hmode]
    have hnew := hprepared.newTokens
    rw [newPrefillTokens, if_neg hmode, hfull, hzero] at hnew
    have hpos := hprepared.pos
    have htarget : promptTarget a = promptTarget seq := by
      unfold promptTarget
      rw [hkeep.numPromptTokens, hkeep.numCheckpointedTokens]
    refine ⟨a, ha, hkeep, ⟨by omega, ?_, by omega, ?_⟩, by omega, by omega, hplace, fun hpart => by omega⟩
    · rw [hoffset, hkeep.numPromptTokens]
      exact hlt
    · rw [hkeep.numPromptTokens, hkeep.tokenIds]
      exact hsound.prompt_le

/-- The admission loop leaves the chunked prefills alone. -/
theorem PrefillState.AdmitStep.prefilling {W : TryTest} (h : AdmitStep W st st') :
    st'.sched.prefilling = st.sched.prefilling := by
  cases h with
  | @routed seqId hhead => exact (routeCandidates_frame st.sched seqId seqId).prefilling
  | @tried seqId d ranks s' hmem hrank hhost htest htry =>
    have hcases := tryAllocatePrefill_cases htry
    generalize hr : (none : Option ℤ) = r at hcases
    cases hcases with
    | refused hprep =>
      have hf := prepareAdmission_frame st.sched seqId d (st.numSeqs d) (st.numTokens d)
      rw [hprep] at hf
      exact hf.prefilling
    | @preempted a s₁ s₂ e victim hprep hres hchosen =>
      exact (preemptImpl_spec (s₂.cancelAdmission seqId) d victim).prefilling.trans
        (TryCase.cancelled_frame hprep hres).prefilling
    | admitted => cases hr
  | @restored seqId d s' hhead hrank hhost hrestore =>
    exact (prefilling_popQueue (st.withSched s')).trans (cacheTryRestoreHostBlocks_true hrestore).prefilling
  | @admitted seqId d ranks newTokens s' hhead hrank hhost htest htry =>
    exact (prefilling_popQueue (st.withSched s')).trans (AdmitInv.tryOn_some_frame htry).prefilling

theorem BudgetInv.step (h : BudgetInv L [] st) (hmode : st.sched.config.mode ≠ .decode) (hgroup : st.sched.group = 1)
    (hstep : AdmitStep budgetTest st st') : BudgetInv L [] st' := by
  have htests : ∀ st seqId d ranks, budgetTest st seqId d ranks = true →
      queueTest st seqId d ranks = true ∧ startsInPrompt st seqId d ranks = true :=
    fun st seqId d ranks hW => Bool.and_eq_true _ _ ▸ hW
  have hinv : AdmitInv L [] st' := h.toAdmitInv.step
    (hstep.mono fun st seqId d ranks hW => (htests st seqId d ranks hW).1)
  cases hstep with
  | @routed seqId hhead =>
    have hsame := (routeCandidates_frame st.sched seqId seqId).toSameQueues
    have ht := routeCandidates_seqTable st.sched seqId
    have hf : Frame (fun a b => b = a) seqId st.sched (st.sched.routeCandidates seqId).2 :=
      { hsame with
        others := fun id _ => by rw [ht]
        missing := fun hn => by rw [ht]; exact hn
        entry := fun a ha => ⟨a, by rw [ht]; exact ha, rfl⟩ }
    exact h.entry (h.one.idle_of_mem_queue (List.mem_of_mem_head? hhead)).1 hinv hf fun a b _ hab ha => hab ▸ ha
  | @tried seqId d ranks s' hmem hrank hhost htest htry =>
    have hidle := (h.one.idle_of_mem_queue hmem).1
    have hcases := tryAllocatePrefill_cases htry
    generalize hr : (none : Option ℤ) = r at hcases
    cases hcases with
    | refused hprep =>
      have hf := prepareAdmission_frame st.sched seqId d (st.numSeqs d) (st.numTokens d)
      rw [hprep] at hf
      exact h.entry hidle hinv hf fun a b _ hab ha => ha.recordsCached hab
    | @preempted a s₁ s₂ e victim hprep hres hchosen =>
      have hlive := (h.one.live_of_pos (Nat.add_pos_left (queueCount_pos_of_mem_queue hmem) _)).2
      have hf := TryCase.cancelled_frame hprep hres
      have hcancel : AdmitInv L [] (st.withSched (s₂.cancelAdmission seqId)) :=
        h.toAdmitInv.congr hf.toSameQueues fun id _ =>
          hf.unfinished (fun _ _ hab => by rw [hab.2]; decide) hlive id
      have h₁ := h.entry hidle hcancel hf fun a b ha hab hsound =>
        hsound.keepsRequest hab.1 (Sequence.noHost hhost ha)
      exact h₁.preempted (preemptImpl_spec (s₂.cancelAdmission seqId) d victim) hinv
    | admitted => cases hr
  | @restored seqId d s' hhead hrank hhost hrestore =>
    have hf := cacheTryRestoreHostBlocks_true hrestore
    obtain ⟨hinv₁, hhead₁⟩ := h.toAdmitInv.restatus (fun _ _ hab => by rw [hab.status]; decide) hf hhead
    have h₁ := h.entry (h.one.idle_of_mem_queue (List.mem_of_mem_head? hhead)).1 hinv₁ hf
      fun a b _ hab ha => ha.restores hab
    refine h₁.placeRestored (hf.config ▸ hrank : d < s'.config.dp) hhead₁ fun b hb => ?_
    -- a sequence with a host copy has reached its target
    cases ha : st.sched.seqTable seqId with
    | none =>
      unfold cacheSeqHasHostBlocks at hhost
      rw [ha] at hhost
      cases hhost
    | some a =>
      obtain ⟨b', hb', hab⟩ := hf.entry a ha
      rw [show (st.withSched s').sched.seqTable seqId = s'.seqTable seqId from rfl, hb'] at hb
      cases hb
      have hne : a.hostBlockTable ≠ [] := by
        unfold cacheSeqHasHostBlocks at hhost
        rw [ha] at hhost
        simpa using hhost
      exact (h₁.sound seqId _ hb').host (hab.hostBlockTable ▸ hne)
  | @admitted seqId d ranks newTokens s' hhead hrank hhost htest htry =>
    have hf := AdmitInv.tryOn_some_frame htry
    obtain ⟨hinv₁, hhead₁⟩ := h.toAdmitInv.restatus (fun _ _ hb => by rw [hb]; decide) hf hhead
    have hpos := queueCount_pos_of_mem_queue (List.mem_of_mem_head? hhead)
    obtain ⟨seq, hseq, -⟩ := exists_of_unfinished (h.one.live_of_pos (Nat.add_pos_left hpos _)).2
    obtain ⟨a, ha, hkeep, hchunk, hnew, hbudget, hplace, hrest⟩ := tryOn_some_row hmode hgroup htry hseq
      (h.sound seqId seq hseq) (htests st seqId d ranks htest).2
    have hf' : Frame (fun _ b => b = a) seqId st.sched s' := { hf with entry := fun x hx => ⟨a, ha, rfl⟩ }
    have h₁ := h.entry (h.one.idle_of_mem_queue (List.mem_of_mem_head? hhead)).1 hinv₁ hf' (by
      rintro x _ hx rfl hx'
      rw [hseq] at hx
      cases hx
      exact hx'.keepsRequest hkeep (Sequence.noHost hhost hseq))
    have hgroup' : s'.group = 1 := (congrArg SchedulerConfig.group hf.config).trans hgroup
    rw [← hf.config] at hbudget hplace hrest
    exact h₁.placeAdmitted (hf.config ▸ hrank : d < s'.config.dp) hgroup' hhead₁ ha hchunk
      hnew hbudget hplace hrest

end step

end NanoEngine
