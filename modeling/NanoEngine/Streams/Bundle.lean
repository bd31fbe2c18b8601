import Mathlib.Data.List.GetD
import NanoEngine.Slots.Main
import NanoEngine.Streams.Postprocess

/-!
# NanoEngine.Streams.Bundle — a bundle of tokens against its tokens one by one

* `Gives`: a batch hands one row of tokens and its log-probabilities to a sequence.
* `OneByOne`: the tokens are handed over one a step, as long as the sequence is running.
* `bundle_eq_oneByOne`: a bundle that is not empty leaves what its tokens leave; the empty one only repeats the terminal
  test.
-/

namespace NanoEngine

/-- What postprocessing reads and writes of a sequence, its status apart. -/
structure TokenState where
  tokenIds : List ℤ
  lastToken : ℤ
  numTokens : ℤ
  completionLogprobs : List ℚ
  numPromptTokens : ℤ
  numCheckpointedTokens : ℤ
  samplingParams : SamplingParams

namespace Sequence

def tokenState (a : Sequence) : TokenState :=
  ⟨a.tokenIds, a.lastToken, a.numTokens, a.completionLogprobs, a.numPromptTokens,
    a.numCheckpointedTokens, a.samplingParams⟩

theorem KeepsProgress.tokenState {a b : Sequence} (h : a.KeepsProgress b) : b.tokenState = a.tokenState := by
  unfold Sequence.tokenState
  rw [h.tokenIds, h.lastToken, h.numTokens, h.completionLogprobs, h.numPromptTokens, h.numCheckpointedTokens,
    h.samplingParams]

theorem pushToken_tokenState {a b : Sequence} (h : a.tokenState = b.tokenState) (token : ℤ) (logprob : Option ℚ) :
    (a.pushToken token logprob).tokenState = (b.pushToken token logprob).tokenState := by
  simp only [tokenState, TokenState.mk.injEq] at h
  simp only [tokenState, pushToken, h]

/-- The tokens of a sequence that are to be prefilled were, and it counts no token that it does not have. -/
structure PrefillDone (a : Sequence) : Prop where
  target : Scheduler.promptTarget a ≤ a.numTokens
  counted : a.numTokens ≤ a.tokenIds.length

theorem PrefillDone.congr {a b : Sequence} (h : a.PrefillDone) (hab : b.tokenState = a.tokenState) : b.PrefillDone := by
  simp only [tokenState, TokenState.mk.injEq] at hab
  obtain ⟨htokens, -, hnum, -, hprompt, hcheck, -⟩ := hab
  obtain ⟨htarget, hcounted⟩ := h
  unfold Scheduler.promptTarget at htarget
  refine ⟨?_, ?_⟩
  · unfold Scheduler.promptTarget
    omega
  · rw [htokens]
    omega

theorem PrefillDone.pushToken {a : Sequence} (h : a.PrefillDone) (token : ℤ) (logprob : Option ℚ) :
    (a.pushToken token logprob).PrefillDone := by
  obtain ⟨htarget, hcounted⟩ := h
  have hlen : ((a.tokenIds ++ [token]).length : ℤ) = a.tokenIds.length + 1 := by simp
  unfold Scheduler.promptTarget at htarget
  refine ⟨?_, le_refl _⟩
  unfold Scheduler.promptTarget Sequence.pushToken
  dsimp only
  omega

end Sequence

namespace Scheduler

variable {s s' : Scheduler} {seqId d : ℕ} {a b : Sequence}

/-! ## The token loop -/

theorem canAppend_congr (h : a.tokenState = b.tokenState) : s.canAppend a = s.canAppend b := by
  simp only [Sequence.tokenState, TokenState.mk.injEq] at h
  unfold canAppend
  rw [h.2.2.1, h.2.2.2.2.1, h.2.2.2.2.2.2]

theorem hitEosOrLimit_congr (h : a.tokenState = b.tokenState) : s.hitEosOrLimit a = s.hitEosOrLimit b := by
  simp only [Sequence.tokenState, TokenState.mk.injEq] at h
  unfold hitEosOrLimit
  rw [h.2.1, h.2.2.1, h.2.2.2.2.1, h.2.2.2.2.2.2]

/-- After an append both terminal tests ask the same. -/
theorem terminalAfterAppend_eq (s : Scheduler) (a : Sequence) (token : ℤ) (logprob : Option ℚ) :
    s.terminalAfterAppend (a.pushToken token logprob) token = s.hitEosOrLimit (a.pushToken token logprob) := rfl

theorem appendTokens_tokenState (h : a.tokenState = b.tokenState) (tokens : List ℤ) (logprobs : List ℚ) :
    (s.appendTokens a tokens logprobs).1.tokenState = (s.appendTokens b tokens logprobs).1.tokenState ∧
      (s.appendTokens a tokens logprobs).2 = (s.appendTokens b tokens logprobs).2 := by
  induction tokens generalizing a b logprobs with
  | nil => exact ⟨h, rfl⟩
  | cons token tokens ih =>
    have hpush := Sequence.pushToken_tokenState h token logprobs.head?
    obtain ⟨hstate, hrest⟩ := ih hpush logprobs.tail
    unfold appendTokens
    rw [canAppend_congr h]
    dsimp only
    rw [terminalAfterAppend_eq, terminalAfterAppend_eq, hitEosOrLimit_congr hpush]
    split
    case isTrue =>
      split
      case isTrue => exact ⟨hpush, rfl⟩
      case isFalse => exact ⟨hstate, by rw [hrest]⟩
    case isFalse => exact ⟨h, rfl⟩

/-- The sequence ends after the tokens were applied. -/
def endsAfter (s : Scheduler) (a : Sequence) (tokens : List ℤ) (logprobs : List ℚ) : Bool :=
  (s.appendTokens a tokens logprobs).2.2 || s.hitEosOrLimit (s.appendTokens a tokens logprobs).1

theorem endsAfter_congr (h : a.tokenState = b.tokenState) (tokens : List ℤ) (logprobs : List ℚ) :
    s.endsAfter a tokens logprobs = s.endsAfter b tokens logprobs := by
  obtain ⟨hstate, hrest⟩ := appendTokens_tokenState (s := s) h tokens logprobs
  unfold endsAfter
  rw [hrest, hitEosOrLimit_congr hstate]

theorem endsAfter_of_config (h : s'.config = s.config) (a : Sequence) (tokens : List ℤ) (logprobs : List ℚ) :
    s'.endsAfter a tokens logprobs = s.endsAfter a tokens logprobs := by
  unfold endsAfter hitEosOrLimit
  rw [appendTokens_congr h, h]

/-- A token after which the sequence goes on: the loop goes on as after a step of its own. -/
theorem appendTokens_cons {token : ℤ} {logprobs : List ℚ} (h : s.endsAfter a [token] (logprobs.take 1) = false)
    (tokens : List ℤ) :
    (s.appendTokens a [token] (logprobs.take 1)).1 = a.pushToken token logprobs.head? ∧
      (s.appendTokens a [token] (logprobs.take 1)).2.1 = [token] ∧
      s.appendTokens a (token :: tokens) logprobs =
        ((s.appendTokens (a.pushToken token logprobs.head?) tokens logprobs.tail).1,
          token :: (s.appendTokens (a.pushToken token logprobs.head?) tokens logprobs.tail).2.1,
          (s.appendTokens (a.pushToken token logprobs.head?) tokens logprobs.tail).2.2) := by
  have hhead : (logprobs.take 1).head? = logprobs.head? := by cases logprobs <;> rfl
  unfold endsAfter appendTokens at h
  rw [hhead] at h
  by_cases happend : s.canAppend a = true
  · rw [if_pos happend] at h
    dsimp only at h
    by_cases hterminal : s.terminalAfterAppend (a.pushToken token logprobs.head?) token = true
    · rw [if_pos hterminal] at h
      cases h
    · refine ⟨?_, ?_, ?_⟩
      · simp only [appendTokens, hhead, happend, hterminal, if_true]
        rfl
      · simp only [appendTokens, hhead, happend, hterminal, if_true]
        rfl
      · rw [appendTokens, if_pos happend]
        dsimp only
        rw [if_neg hterminal]
  · rw [if_neg happend] at h
    cases h

/-- A token after which the sequence ends: the loop stops there. -/
theorem appendTokens_last {token : ℤ} {logprobs : List ℚ} (h : s.endsAfter a [token] (logprobs.take 1) = true)
    (tokens : List ℤ) :
    s.appendTokens a (token :: tokens) logprobs = s.appendTokens a [token] (logprobs.take 1) := by
  have hhead : (logprobs.take 1).head? = logprobs.head? := by cases logprobs <;> rfl
  unfold endsAfter at h
  rw [appendTokens] at h ⊢
  rw [appendTokens]
  rw [hhead] at h ⊢
  split
  case isTrue happend =>
    rw [if_pos happend] at h
    dsimp only at h ⊢
    split
    case isTrue => rfl
    case isFalse hterminal =>
      rw [if_neg hterminal] at h
      rw [terminalAfterAppend_eq] at hterminal
      simp only [appendTokens, Bool.false_or] at h
      exact absurd h hterminal
  case isFalse => rfl

/-! ## One sequence of a batch -/

/-- What a batch does with the other sequences does not reach this one. -/
structure Untouched (seqId : ℕ) (s s' : Scheduler) : Prop where
  config : s'.config = s.config
  dummySeqIds : s'.dummySeqIds = s.dummySeqIds
  entry : s'.seqTable seqId = s.seqTable seqId
  last : s'.lastStepTokenIds seqId = s.lastStepTokenIds seqId
  running : ∀ d, seqId ∈ s'.running d ↔ seqId ∈ s.running d
  rank : s'.cache.seqAssignment seqId = s.cache.seqAssignment seqId
  migrating : s'.toBeMigrated seqId = s.toBeMigrated seqId

theorem Untouched.refl (seqId : ℕ) (s : Scheduler) :
    Untouched seqId s s := ⟨rfl, rfl, rfl, rfl, fun _ => .rfl, rfl, rfl⟩

theorem Untouched.trans {s'' : Scheduler} (h : Untouched seqId s s') (k : Untouched seqId s' s'') :
    Untouched seqId s s'' where
  config := k.config.trans h.config
  dummySeqIds := k.dummySeqIds.trans h.dummySeqIds
  entry := k.entry.trans h.entry
  last := k.last.trans h.last
  running := fun d => (k.running d).trans (h.running d)
  rank := k.rank.trans h.rank
  migrating := k.migrating.trans h.migrating

section batches

variable [Xxh3]

/-- Growing a sequence gives it a rank if it had none, and moves no other one. -/
theorem cacheEnsureBlocksForSeq_rank (s : Scheduler) (id : ℕ) (isPrefill : Bool) :
    (s.cacheEnsureBlocksForSeq id isPrefill).2.cache.seqAssignment = s.cache.seqAssignment ∨
      s.cache.seqAssignment id = none ∧ ∃ rank, (s.cacheEnsureBlocksForSeq id isPrefill).2.cache.seqAssignment =
        Function.update s.cache.seqAssignment id (some rank) := by
  have hgrow : ∀ (s : Scheduler) (d g : ℕ) (seq : Sequence) (tokens : ℤ),
      (s.cacheGrowSeq id d g seq tokens isPrefill).2.cache.seqAssignment = s.cache.seqAssignment := by
    intro s d g seq tokens
    unfold cacheGrowSeq
    dsimp only
    split
    case h_1 e c heq => exact (congrArg (fun r => r.2.seqAssignment) heq).symm
    case h_2 blocks c heq =>
      have hcache : c.seqAssignment = s.cache.seqAssignment := (congrArg (fun r => r.2.seqAssignment) heq).symm
      have hslots := cacheEnsureSlotsAndPages_seqAssignment
        ((s.setCache c).cacheAttachActiveBlocks id d g blocks) id tokens
      split
      case h_1 e s₁ heq₁ =>
        rw [heq₁] at hslots
        exact hslots.trans hcache
      case h_2 s₁ heq₁ =>
        rw [heq₁] at hslots
        split <;> exact hslots.trans hcache
  -- the rank is given before the blocks are asked for, so it stays when they fail
  unfold cacheEnsureBlocksForSeq
  split
  case h_1 => exact .inl rfl
  case h_2 seq hseq =>
    dsimp only
    split
    case isTrue => exact .inl rfl
    case isFalse =>
      rw [hgrow]
      unfold cacheAssignment
      split
      case h_1 => exact .inl rfl
      case h_2 hnone =>
        refine .inr ⟨hnone, s.chooseAssignment.1, ?_⟩
        have hchoose : s.chooseAssignment.2.cache = s.cache := by
          unfold chooseAssignment
          split <;> rfl
        dsimp only [setCache, CacheState.assignSeq]
        rw [hchoose]

omit [Xxh3] in
theorem mem_pushRunning_of_ne {id : ℕ} (h : seqId ≠ id) (s : Scheduler) (d d' : ℕ) :
    seqId ∈ (s.pushRunning d id).running d' ↔ seqId ∈ s.running d' := by
  rw [mem_pushRunning]
  exact or_iff_left fun hid => h hid.2

theorem postprocessPlace_untouched {id : ℕ} (hid : seqId ≠ id) (s : Scheduler) (d : ℕ) (seq : Sequence)
    (hitTerminal : Bool) :
    Untouched seqId s (s.postprocessPlace d id seq hitTerminal) := by
  have hf := postprocessPlace_frame s d id seq hitTerminal
  refine ⟨hf.config, hf.dummySeqIds, hf.others seqId hid, hf.lastOthers seqId hid, fun d' => ?_, ?_, ?_⟩
  · unfold postprocessPlace
    split
    case isTrue => exact .rfl
    case isFalse =>
      split
      case isTrue => exact .rfl
      case isFalse =>
        rw [mem_pushRunning_of_ne hid]
        exact iff_of_eq (congrArg (fun q => seqId ∈ q d')
          (cacheEnsureBlocksForSeq_frame s id false).toSameQueues.running)
  · unfold postprocessPlace
    split
    case isTrue =>
      have hrelease := congrArg SlotPart.seqAssignment (CacheState.releaseSeq_slotPart s.cache id s.group)
      exact (congrFun hrelease seqId).trans (Function.update_of_ne hid _ _)
    case isFalse =>
      split
      case isTrue => rfl
      case isFalse =>
        rcases cacheEnsureBlocksForSeq_rank s id false with h | ⟨-, rank, h⟩
        · exact congrFun h seqId
        · exact (congrFun h seqId).trans (Function.update_of_ne hid _ _)
  · unfold postprocessPlace
    split
    case isTrue => rfl
    case isFalse =>
      split
      case isTrue => exact Function.update_of_ne hid _ _
      case isFalse => exact congrFun (cacheEnsureBlocksForSeq_frame s id false).toSameQueues.toBeMigrated seqId

/-- The visit of another sequence. -/
theorem postprocessSeq_untouched {id : ℕ} (hid : seqId ≠ id) (s : Scheduler) (d : ℕ) (row : Option (List ℤ))
    (logprobs : List ℚ) : Untouched seqId s (s.postprocessSeq d id row logprobs) := by
  unfold postprocessSeq
  split
  case isTrue => exact .refl seqId s
  case isFalse =>
    split
    case h_1 => exact ⟨rfl, rfl, rfl, rfl, fun d' => mem_pushRunning_of_ne hid s d d', rfl, rfl⟩
    case h_2 tokens =>
      split
      case h_1 => exact .refl seqId s
      case h_2 seq hseq =>
        split
        case isTrue =>
          have hf := commitHbmBlocks_frame s id seq.numTokens
          have hsame := s.commitHbmBlocks_same id seq.numTokens
          refine ⟨hf.config, hf.dummySeqIds, ?_, congrFun hf.lastStepTokenIds seqId, fun d' => ?_,
            congrFun (congrArg SlotPart.seqAssignment hsame.slotPart) seqId,
              congrFun hf.toSameQueues.toBeMigrated seqId⟩
          · exact (Function.update_of_ne hid _ _).trans (congrFun (commitHbmBlocks_seqTable s id seq.numTokens) seqId)
          · exact iff_of_eq (congrArg (fun q => seqId ∈ q d') hf.toSameQueues.running)
        case isFalse =>
          have hspec := postprocessAppend_spec s id seq tokens logprobs hseq
          have hsame := postprocessAppend_same hseq tokens logprobs
          have happend : Untouched seqId s (s.postprocessAppend id seq tokens logprobs).2 :=
            ⟨hspec.config, hspec.dummySeqIds, hspec.others seqId hid, hspec.lastOthers seqId hid,
              fun d' => iff_of_eq (congrArg (fun q => seqId ∈ q d') hspec.running),
              congrFun (congrArg SlotPart.seqAssignment hsame.slotPart) seqId, congrFun hspec.toBeMigrated seqId⟩
          exact happend.trans (postprocessPlace_untouched hid _ d _ _)

/-- The visit of the sequence itself, after which the row of `tokens` is applied. -/
structure Given (s s' : Scheduler) (seqId d : ℕ) (a : Sequence) (tokens : List ℤ) (logprobs : List ℚ) : Prop where
  config : s'.config = s.config
  dummySeqIds : s'.dummySeqIds = s.dummySeqIds
  last : s'.lastStepTokenIds seqId = some (s.appendTokens a tokens logprobs).2.1
  entry : ∃ b, s'.seqTable seqId = some b ∧ b.tokenState = (s.appendTokens a tokens logprobs).1.tokenState ∧
    b.status = if s.endsAfter a tokens logprobs then .finished else .running
  running : seqId ∉ s.running d → (seqId ∈ s'.running d ↔ s.endsAfter a tokens logprobs = false)
  released : s.endsAfter a tokens logprobs = true → s'.hasRank seqId = false
  kept : s.endsAfter a tokens logprobs = false → s.hasRank seqId = true → s'.hasRank seqId = true

/-- Placing the sequence, once its tokens are applied. -/
theorem postprocessPlace_given (d : ℕ) {t : Sequence} (hitTerminal : Bool) (hmode : s.config.mode ≠ .prefill)
    (ht : s.seqTable seqId = some t) :
    (∃ b, (s.postprocessPlace d seqId t hitTerminal).seqTable seqId = some b ∧ b.tokenState = t.tokenState ∧
      b.status = if hitTerminal || s.hitEosOrLimit t then .finished else .running) ∧
    (seqId ∉ s.running d → (seqId ∈ (s.postprocessPlace d seqId t hitTerminal).running d ↔
      (hitTerminal || s.hitEosOrLimit t) = false)) ∧
    ((hitTerminal || s.hitEosOrLimit t) = true → (s.postprocessPlace d seqId t hitTerminal).hasRank seqId = false) ∧
    ((hitTerminal || s.hitEosOrLimit t) = false → s.hasRank seqId = true →
      (s.postprocessPlace d seqId t hitTerminal).hasRank seqId = true) := by
  unfold postprocessPlace
  cases hends : hitTerminal || s.hitEosOrLimit t with
  -- a sequence that ends is released, which takes its rank away
  | true =>
    rw [if_pos rfl, if_pos rfl]
    refine ⟨⟨{ t with status := .finished }, by simp [releaseSeq, setCache, updateSeq, ht], rfl, rfl⟩,
      fun hnot => ?_,
      fun _ => ?_, fun h => by cases h⟩
    · exact iff_of_false hnot Bool.true_eq_false.mp
    · have hrelease := congrArg SlotPart.seqAssignment (CacheState.releaseSeq_slotPart s.cache seqId s.group)
      have hnone := (congrFun hrelease seqId).trans (Function.update_self _ _ _)
      exact congrArg Option.isSome hnone
  | false =>
    rw [if_neg Bool.false_ne_true, if_neg Bool.false_ne_true, if_neg hmode]
    have hf := (cacheEnsureBlocksForSeq_frame s seqId false).cacheFrame
    obtain ⟨b, hb, hab⟩ := hf.entry t ht
    refine ⟨⟨{ b with status := .running }, by simp [pushRunning, updateSeq, hb], hab.tokenState, rfl⟩,
      fun _ => ?_,
      fun h => (by cases h), fun _ hrank => ?_⟩
    · exact iff_of_true (mem_pushRunning.2 (.inr ⟨rfl, rfl⟩)) rfl
    · rcases cacheEnsureBlocksForSeq_rank s seqId false with h | ⟨-, rank, h⟩
      · exact (congrArg (fun r => (r seqId).isSome) h).trans hrank
      · exact congrArg Option.isSome ((congrFun h seqId).trans (Function.update_self _ _ _))

theorem postprocessSeq_given (hmode : s.config.mode ≠ .prefill) (hdummy : seqId ∉ s.dummySeqIds)
    (ha : s.seqTable seqId = some a) (hdone : a.PrefillDone) (tokens : List ℤ) (logprobs : List ℚ) :
    Given s (s.postprocessSeq d seqId (some tokens) logprobs) seqId d a tokens logprobs := by
  have hf := postprocessSeq_frame s d seqId (some tokens) logprobs
  have hspec := postprocessAppend_spec s seqId a tokens logprobs ha
  have hsame := postprocessAppend_same ha tokens logprobs
  have hstart : (if a.status = .prefilling then { a with status := SequenceStatus.running } else a).tokenState =
      a.tokenState := by split <;> rfl
  obtain ⟨hstate, hrest⟩ := appendTokens_tokenState (s := s) hstart tokens logprobs
  have hentry := hspec.entry
  have hlast := hspec.last
  have hhit : (s.postprocessAppend seqId a tokens logprobs).1.2 = (s.appendTokens a tokens logprobs).2.2 := by
    rw [← hrest]
    unfold postprocessAppend
    dsimp only
    generalize (if a.status = .prefilling then { a with status := SequenceStatus.running } else a) = start
    have happend := @appendTokens_congr s { s with seqTable := Function.update s.seqTable seqId (some start) } rfl start
      tokens logprobs
    split
    case isTrue => rw [appendTokens_congr (commitHbmBlocks_frame _ _ _).config, happend]
    case isFalse => rw [happend]
  -- whether it ends is read off the entry after the append, as the source does
  have hends : ((s.postprocessAppend seqId a tokens logprobs).1.2 ||
      (s.postprocessAppend seqId a tokens logprobs).2.hitEosOrLimit (s.postprocessAppend seqId a tokens logprobs).1.1) =
        s.endsAfter a tokens logprobs := by
    unfold endsAfter
    rw [hhit, ← hitEosOrLimit_congr hstate, hentry]
    unfold hitEosOrLimit
    rw [hspec.config]
  obtain ⟨hplaced, hrunning, hreleased, hkept⟩ := postprocessPlace_given d
    (s.postprocessAppend seqId a tokens logprobs).1.2
    (s := (s.postprocessAppend seqId a tokens logprobs).2) (t := (s.postprocessAppend seqId a tokens logprobs).1.1)
    (by rw [hspec.config]; exact hmode) (by rw [hspec.table, Function.update_self])
  have hplace : s.postprocessSeq d seqId (some tokens) logprobs =
      (s.postprocessAppend seqId a tokens logprobs).2.postprocessPlace d seqId
        (s.postprocessAppend seqId a tokens logprobs).1.1 (s.postprocessAppend seqId a tokens logprobs).1.2 := by
    unfold postprocessSeq
    rw [if_neg hdummy]
    dsimp only
    rw [ha]
    exact if_neg (by have := hdone.target; omega)
  rw [hplace] at hf ⊢
  rw [hends] at hplaced hrunning hreleased hkept
  refine ⟨hf.config, hf.dummySeqIds, ?_, ?_, ?_, hreleased, fun h hrank => hkept h ?_⟩
  · rw [(postprocessPlace_entry _ d _ _ (by rw [hspec.config]; exact hmode)
      (by rw [hspec.table, Function.update_self])).1, hlast, Function.update_self, hrest]
  · obtain ⟨b, hb, hbstate, hbstatus⟩ := hplaced
    exact ⟨b, hb, hbstate.trans (by rw [hentry]; exact hstate), hbstatus⟩
  · rw [hspec.running] at hrunning
    exact hrunning
  · have hranks := congrFun (congrArg SlotPart.seqAssignment hsame.slotPart) seqId
    exact (congrArg Option.isSome hranks).trans hrank

/-! ## Batches -/

/-- The batch lists the sequence once, in a group of rank `d` and with this row. -/
structure Gives (group : ℕ) (groups : List (List ℕ)) (rows : List (List (List ℤ))) (logs : List (List (List ℚ)))
    (seqId d : ℕ) (tokens : List ℤ) (logprobs : List ℚ) : Prop where
  once : groups.flatten.count seqId = 1
  row : ∃ g i : ℕ, g / group = d ∧ (groups.getD g [])[i]? = some seqId ∧ (rows.getD g [])[i]? = some tokens ∧
    ((logs.getD g [])[i]?).getD [] = logprobs

omit [Xxh3] in
theorem Given.after {s₀ s₁ : Scheduler} {tokens : List ℤ} {logprobs : List ℚ}
    (h : Given s₁ s seqId d a tokens logprobs)
    (hbefore : Untouched seqId s₀ s₁) (hafter : Untouched seqId s s') :
      Given s₀ s' seqId d a tokens logprobs := by
  have happend := appendTokens_congr hbefore.config a tokens logprobs
  have hends := endsAfter_of_config hbefore.config a tokens logprobs
  obtain ⟨hconfig, hdummies, hlast, hentry, hrunning, hreleased, hkept⟩ := h
  rw [happend, hends] at *
  refine ⟨hafter.config.trans (hconfig.trans hbefore.config),
    hafter.dummySeqIds.trans (hdummies.trans hbefore.dummySeqIds), hafter.last.trans hlast, ?_,
      fun hnot => ?_, fun h => ?_,
    fun h hrank => ?_⟩
  · rwa [hafter.entry]
  · rw [hafter.running, hrunning (by rwa [hbefore.running])]
  · exact (congrArg Option.isSome hafter.rank).trans (hreleased h)
  · exact (congrArg Option.isSome hafter.rank).trans (hkept h ((congrArg Option.isSome hbefore.rank).trans hrank))

theorem postprocessGroup_untouched (ids : List ℕ) (rows : List (List ℤ)) (logs : List (List ℚ)) (s : Scheduler)
    (hid : seqId ∉ ids) : Untouched seqId s (postprocessGroup d ids rows logs s) := by
  induction ids generalizing rows logs s with
  | nil => exact .refl seqId s
  | cons id ids ih =>
    rw [List.mem_cons, not_or] at hid
    exact (postprocessSeq_untouched hid.1 s d rows.head? (logs.head?.getD [])).trans (ih rows.tail logs.tail _ hid.2)

theorem postprocessGroups_untouched (k : ℕ) (groups : List (List ℕ)) (rows : List (List (List ℤ)))
    (logs : List (List (List ℚ))) (s : Scheduler) (hid : seqId ∉ groups.flatten) :
    Untouched seqId s (postprocessGroups k groups rows logs s) := by
  induction groups generalizing k rows logs s with
  | nil => exact .refl seqId s
  | cons ids groups ih =>
    rw [List.flatten_cons, List.mem_append, not_or] at hid
    unfold postprocessGroups
    cases rows with
    | nil => exact ih _ _ _ _ hid.2
    | cons row rows => exact (postprocessGroup_untouched ids row (logs.head?.getD []) s hid.1).trans (ih _ _ _ _ hid.2)

omit [Xxh3] in
theorem lt_length_of_getD {groups : List (List ℕ)} {g i : ℕ} (h : (groups.getD g [])[i]? = some seqId) :
    g < groups.length := by
  by_contra hge
  rw [List.getD_eq_default _ _ (by omega)] at h
  cases h

/-- The group that lists the sequence at place `i`. -/
theorem postprocessGroup_given (hmode : s.config.mode ≠ .prefill) (hdummy : seqId ∉ s.dummySeqIds)
    (ha : s.seqTable seqId = some a) (hdone : a.PrefillDone) {tokens : List ℤ} {ids : List ℕ}
    {rows : List (List ℤ)}
    (logs : List (List ℚ)) {i : ℕ} (hid : ids[i]? = some seqId) (hrow : rows[i]? = some tokens)
    (honce : ids.count seqId ≤ 1) :
    Given s (postprocessGroup d ids rows logs s) seqId d a tokens ((logs[i]?).getD []) := by
  induction ids generalizing rows logs i s with
  | nil => cases hid
  -- either this entry is the sequence, and the rest of the list is not, or it is found further on
  | cons id ids ih =>
    cases rows with
    | nil => cases hrow
    | cons row rows =>
      unfold postprocessGroup
      cases i with
      | zero =>
        obtain rfl := Option.some.inj hid
        obtain rfl := Option.some.inj hrow
        rw [List.count_cons_self] at honce
        have hnot : id ∉ ids := List.count_eq_zero.1 (by omega)
        rw [← List.head?_eq_getElem?]
        exact (postprocessSeq_given hmode hdummy ha hdone row _).after (.refl id s)
          (postprocessGroup_untouched ids rows logs.tail _ hnot)
      | succ i =>
        rw [List.getElem?_cons_succ] at hid hrow
        have hmem := List.mem_of_getElem? hid
        have hne : seqId ≠ id := by
          rintro rfl
          rw [List.count_cons_self] at honce
          have := List.count_pos_iff.2 hmem
          omega
        rw [List.count_cons_of_ne (by simpa using hne.symm)] at honce
        have hvisit := postprocessSeq_untouched hne s d (some row) (logs.head?.getD [])
        have hrest := ih (by rwa [hvisit.config]) (by rwa [hvisit.dummySeqIds])
          (hvisit.entry.trans ha) logs.tail hid hrow
          honce
        rw [List.getElem?_tail] at hrest
        exact hrest.after hvisit (.refl seqId _)

theorem postprocessGroups_given (hmode : s.config.mode ≠ .prefill) (hdummy : seqId ∉ s.dummySeqIds)
    (ha : s.seqTable seqId = some a) (hdone : a.PrefillDone) {tokens : List ℤ} {groups : List (List ℕ)}
    {rows : List (List (List ℤ))} (logs : List (List (List ℚ))) (k : ℕ) {g i : ℕ}
    (hid : (groups.getD g [])[i]? = some seqId)
    (hrow : (rows.getD g [])[i]? = some tokens) (honce : groups.flatten.count seqId ≤ 1) :
    Given s (postprocessGroups k groups rows logs s) seqId ((k + g) / s.group) a tokens
      (((logs.getD g [])[i]?).getD []) := by
  -- the row is in the first group, or in a later one and the first leaves the sequence alone
  induction groups generalizing rows logs k g s with
  | nil => simp at hid
  | cons ids groups ih =>
    rw [List.flatten_cons, List.count_append] at honce
    cases rows with
    | nil => simp at hrow
    | cons row rows =>
      unfold postprocessGroups
      dsimp only [List.head?_cons]
      cases g with
      | zero =>
        rw [List.getD_cons_zero] at hid hrow
        have hpos := List.count_pos_iff.2 (List.mem_of_getElem? hid)
        have hnot : seqId ∉ groups.flatten := List.count_eq_zero.1 (by omega)
        have hlogs : logs.getD 0 [] = logs.head?.getD [] := by cases logs <;> rfl
        rw [hlogs, Nat.add_zero]
        exact (postprocessGroup_given hmode hdummy ha hdone _ hid hrow (by omega)).after (.refl seqId s)
          (postprocessGroups_untouched (k + 1) groups rows logs.tail _ hnot)
      | succ g =>
        rw [List.getD_cons_succ] at hid hrow
        have hg := lt_length_of_getD hid
        have hmem : seqId ∈ groups.flatten := by
          refine List.mem_flatten.2 ⟨groups[g], List.getElem_mem hg, ?_⟩
          rw [← List.getD_eq_getElem groups [] hg]
          exact List.mem_of_getElem? hid
        have hpos := List.count_pos_iff.2 hmem
        have hnot : seqId ∉ ids := List.count_eq_zero.1 (by omega)
        have hvisit := postprocessGroup_untouched (d := k / s.group) ids row (logs.head?.getD []) s hnot
        have hrest := ih (by rwa [hvisit.config]) (by rwa [hvisit.dummySeqIds])
          (hvisit.entry.trans ha) logs.tail (k + 1)
          hid hrow (by omega)
        have hgroup : (postprocessGroup (k / s.group) ids row (logs.head?.getD []) s).group = s.group :=
          congrArg SchedulerConfig.group hvisit.config
        have hlogs : logs.tail.getD g [] = logs.getD (g + 1) [] := by cases logs <;> rfl
        rw [hgroup, hlogs, show k + 1 + g = k + (g + 1) by omega] at hrest
        exact hrest.after hvisit (.refl seqId _)

/-- **What a batch does to a sequence that it lists once.** -/
theorem postprocessImpl_given {groups : List (List ℕ)} {rows : List (List (List ℤ))} {logs : List (List (List ℚ))}
    {tokens : List ℤ} {logprobs : List ℚ} (hmode : s.config.mode ≠ .prefill) (hdummy : seqId ∉ s.dummySeqIds)
    (ha : s.seqTable seqId = some a) (hdone : a.PrefillDone)
    (hgives : Gives s.group groups rows logs seqId d tokens logprobs) :
    Given s (s.postprocessImpl groups rows logs) seqId d a tokens logprobs ∧
      (seqId ∈ (s.postprocessImpl groups rows logs).running d ↔ s.endsAfter a tokens logprobs = false) := by
  obtain ⟨honce, g, i, hg, hid, hrow, hlog⟩ := hgives
  subst hlog
  have hgiven := postprocessGroups_given (s := s.postprocessStart groups) hmode hdummy ha hdone logs 0 hid hrow honce.le
  rw [Nat.zero_add, show g / (s.postprocessStart groups).group = d from hg] at hgiven
  have hnot : seqId ∉ (s.postprocessStart groups).running d := by
    have hscheduled : seqId ∈ scheduledIds s.group groups d := List.mem_flatMap.2
      ⟨g, List.mem_filter.2 ⟨List.mem_range.2 (lt_length_of_getD hid), decide_eq_true hg⟩,
        List.mem_of_getElem? hid⟩
    simp [postprocessStart, hscheduled]
  have happend := @appendTokens_congr s (s.postprocessStart groups) rfl a tokens (((logs.getD g [])[i]?).getD [])
  have hends := @endsAfter_of_config s (s.postprocessStart groups) rfl a tokens (((logs.getD g [])[i]?).getD [])
  obtain ⟨hconfig, hdummies, hlast, hentry, hrunning, hreleased, hkept⟩ := hgiven
  rw [happend] at hlast hentry
  rw [hends] at hentry hrunning hreleased hkept
  exact ⟨⟨hconfig, hdummies, hlast, hentry, fun _ => hrunning hnot, hreleased, hkept⟩, hrunning hnot⟩

end batches

/-! ## One token a step -/

/-- What a sequence is left as: its fields, its status, whether it is queued as running on rank `d` and whether it lost
the rank that it had in `s`. -/
structure Outcome where
  state : TokenState
  status : SequenceStatus
  running : Bool
  released : Bool

def outcome (s s' : Scheduler) (seqId d : ℕ) : Option Outcome :=
  (s'.seqTable seqId).map fun b =>
    ⟨b.tokenState, b.status, decide (seqId ∈ s'.running d), s.hasRank seqId && !s'.hasRank seqId⟩

/-- The tokens that the last step emitted. -/
def stepTokens (s : Scheduler) (seqId : ℕ) : List ℤ := (s.lastStepTokenIds seqId).getD []

def isRunning (s : Scheduler) (seqId : ℕ) : Bool := decide ((s.seqTable seqId).map (·.status) = some .running)

/-- What may happen between two steps of a running sequence: it keeps its tokens and its rank. -/
structure Between (seqId : ℕ) (s s' : Scheduler) : Prop where
  config : s'.config = s.config
  dummySeqIds : s'.dummySeqIds = s.dummySeqIds
  entry : (s'.seqTable seqId).map Sequence.tokenState = (s.seqTable seqId).map Sequence.tokenState
  rank : s'.hasRank seqId = s.hasRank seqId

/-- The tokens are given one a step as long as the sequence is running, each in a batch of its own; the last argument
are the tokens emitted. -/
inductive OneByOne [Xxh3] (seqId d : ℕ) : Scheduler → List ℤ → List ℚ → Scheduler → List ℤ → Prop
  | none (s : Scheduler) (logprobs : List ℚ) : OneByOne seqId d s [] logprobs s []
  | last {s : Scheduler} {groups : List (List ℕ)} {rows : List (List (List ℤ))}
    {logs : List (List (List ℚ))} {token : ℤ}
    {tokens : List ℤ} {logprobs : List ℚ}
    (hgives : Gives s.group groups rows logs seqId d [token] (logprobs.take 1))
    (hlast : tokens = [] ∨ (s.postprocessImpl groups rows logs).isRunning seqId = false) :
    OneByOne seqId d s (token :: tokens) logprobs (s.postprocessImpl groups rows logs)
      ((s.postprocessImpl groups rows logs).stepTokens seqId)
  | next {s s₁ s' : Scheduler} {groups : List (List ℕ)} {rows : List (List (List ℤ))}
    {logs : List (List (List ℚ))}
    {token token' : ℤ} {tokens emitted : List ℤ} {logprobs : List ℚ}
    (hgives : Gives s.group groups rows logs seqId d [token] (logprobs.take 1))
    (hrunning : (s.postprocessImpl groups rows logs).isRunning seqId = true)
    (hbetween : Between seqId (s.postprocessImpl groups rows logs) s₁)
    (hrest : OneByOne seqId d s₁ (token' :: tokens) logprobs.tail s' emitted) :
    OneByOne seqId d s (token :: token' :: tokens) logprobs s'
      ((s.postprocessImpl groups rows logs).stepTokens seqId ++ emitted)

/-- `s'` is what applying the tokens to `a` leaves. -/
structure Leaves (s s' : Scheduler) (seqId d : ℕ) (a : Sequence) (tokens : List ℤ)
    (logprobs : List ℚ) : Prop where
  entry : ∃ b, s'.seqTable seqId = some b ∧ b.tokenState = (s.appendTokens a tokens logprobs).1.tokenState ∧
    b.status = if s.endsAfter a tokens logprobs then .finished else .running
  running : seqId ∈ s'.running d ↔ s.endsAfter a tokens logprobs = false
  released : s.endsAfter a tokens logprobs = true → s'.hasRank seqId = false
  kept : s.endsAfter a tokens logprobs = false → s.hasRank seqId = true → s'.hasRank seqId = true

/-- The outcome depends on the tokens only. -/
theorem Leaves.outcome_eq {tokens : List ℤ} {logprobs : List ℚ} (h : Leaves s s' seqId d a tokens logprobs) :
    outcome s s' seqId d = some ⟨(s.appendTokens a tokens logprobs).1.tokenState,
      if s.endsAfter a tokens logprobs then .finished else .running, !s.endsAfter a tokens logprobs,
      s.hasRank seqId && s.endsAfter a tokens logprobs⟩ := by
  obtain ⟨⟨b, hb, hstate, hstatus⟩, hrunning, hreleased, hkept⟩ := h
  unfold outcome
  rw [hb, Option.map_some, hstate, hstatus]
  cases hends : s.endsAfter a tokens logprobs with
  | true => simp [hends, hreleased hends, hrunning]
  | false =>
    cases hrank : s.hasRank seqId with
    | true => simp [hends, hkept hends hrank, hrunning]
    | false => simp [hends, hrunning]

section steps

variable [Xxh3] {groups : List (List ℕ)} {rows : List (List (List ℤ))} {logs : List (List (List ℚ))}
  {tokens emitted : List ℤ}
  {logprobs : List ℚ}

theorem postprocessImpl_leaves (hmode : s.config.mode ≠ .prefill) (hdummy : seqId ∉ s.dummySeqIds)
    (ha : s.seqTable seqId = some a) (hdone : a.PrefillDone)
    (hgives : Gives s.group groups rows logs seqId d tokens logprobs) :
    Leaves s (s.postprocessImpl groups rows logs) seqId d a tokens logprobs ∧
      (s.postprocessImpl groups rows logs).stepTokens seqId = (s.appendTokens a tokens logprobs).2.1 := by
  obtain ⟨hgiven, hrunning⟩ := postprocessImpl_given hmode hdummy ha hdone hgives
  refine ⟨⟨hgiven.entry, hrunning, hgiven.released, hgiven.kept⟩, ?_⟩
  unfold stepTokens
  rw [hgiven.last, Option.getD_some]

omit [Xxh3] in
theorem isRunning_iff {tokens : List ℤ} {logprobs : List ℚ} (h : Leaves s s' seqId d a tokens logprobs) :
    s'.isRunning seqId = !s.endsAfter a tokens logprobs := by
  obtain ⟨b, hb, -, hstatus⟩ := h.entry
  unfold isRunning
  rw [hb, Option.map_some, hstatus]
  cases s.endsAfter a tokens logprobs <;> rfl

omit [Xxh3] in
theorem appendTokens_take_one (s : Scheduler) (a : Sequence) (token : ℤ) (logprobs : List ℚ) :
    s.appendTokens a [token] (logprobs.take 1) = s.appendTokens a [token] logprobs := by
  cases logprobs <;> rfl

/-- Token by token the sequence is left as by the token loop: one step of the loop for each step of the engine. -/
theorem OneByOne.leaves (h : OneByOne seqId d s tokens logprobs s' emitted) (hmode : s.config.mode ≠ .prefill)
    (hdummy : seqId ∉ s.dummySeqIds) (ha : s.seqTable seqId = some a) (hdone : a.PrefillDone) (hne : tokens ≠ []) :
    Leaves s s' seqId d a tokens logprobs ∧ emitted = (s.appendTokens a tokens logprobs).2.1 := by
  induction h generalizing a with
  | none => exact absurd rfl hne
  | @last s groups rows logs token tokens logprobs hgives hlast =>
    obtain ⟨hleaves, htokens⟩ := postprocessImpl_leaves hmode hdummy ha hdone hgives
    have hsame : s.appendTokens a (token :: tokens) logprobs = s.appendTokens a [token] (logprobs.take 1) := by
      rcases hlast with rfl | hstopped
      · rw [appendTokens_take_one]
      · rw [isRunning_iff hleaves, Bool.not_eq_false'] at hstopped
        exact appendTokens_last hstopped tokens
    have hends : s.endsAfter a (token :: tokens) logprobs = s.endsAfter a [token] (logprobs.take 1) := by
      unfold endsAfter
      rw [hsame]
    obtain ⟨hentry, hrunning, hreleased, hkept⟩ := hleaves
    rw [← hsame, ← hends] at hentry
    rw [← hends] at hrunning hreleased hkept
    exact ⟨⟨hentry, hrunning, hreleased, hkept⟩, htokens.trans (by rw [hsame])⟩
  | @next s s₁ s' groups rows logs token token' tokens emitted logprobs hgives hrunning hbetween hrest ih =>
    obtain ⟨hleaves, htokens⟩ := postprocessImpl_leaves hmode hdummy ha hdone hgives
    rw [isRunning_iff hleaves, Bool.not_eq_true'] at hrunning
    obtain ⟨hpushed, hone, hloop⟩ := appendTokens_cons hrunning (token' :: tokens)
    obtain ⟨hconfig, hdummies⟩ := postprocessImpl_config s groups rows logs
    obtain ⟨b, hb, hstate, -⟩ := hleaves.entry
    have hentry := hbetween.entry
    rw [hb, Option.map_some, hstate, hpushed, Option.map_eq_some_iff] at hentry
    obtain ⟨c, hc, hcstate⟩ := hentry
    obtain ⟨hrest, hemitted⟩ := ih (by rwa [hbetween.config, hconfig]) (by rwa [hbetween.dummySeqIds, hdummies]) hc
      ((hdone.pushToken token logprobs.head?).congr hcstate) (by simp)
    -- the loop goes on from the pushed token as the next steps do
    have hcfg : s₁.config = s.config := hbetween.config.trans hconfig
    obtain ⟨hloopState, hloopRest⟩ := appendTokens_tokenState (s := s) hcstate (token' :: tokens) logprobs.tail
    have hends : s.endsAfter a (token :: token' :: tokens) logprobs =
        s₁.endsAfter c (token' :: tokens) logprobs.tail := by
      rw [endsAfter_of_config hcfg, endsAfter_congr hcstate]
      unfold endsAfter
      rw [hloop]
    obtain ⟨hentry', hrunning', hreleased', hkept'⟩ := hrest
    rw [← hends] at hentry' hrunning' hreleased' hkept'
    rw [appendTokens_congr hcfg] at hentry' hemitted
    refine ⟨⟨?_, hrunning', hreleased', fun h hrank => hkept' h ?_⟩, ?_⟩
    · rw [hloop]
      rwa [hloopState] at hentry'
    · rw [hbetween.rank]
      exact hleaves.kept hrunning hrank
    · rw [htokens, hone, hemitted, hloop, hloopRest]
      rfl

omit [Xxh3] in
/-- The one row of a batch with nothing else. -/
theorem gives_single (s : Scheduler) (seqId d : ℕ) (tokens : List ℤ) (logprobs : List ℚ) :
    Gives s.group (List.replicate (d * s.group) [] ++ [[seqId]]) (List.replicate (d * s.group) [] ++ [[tokens]])
      (List.replicate (d * s.group) [] ++ [[logprobs]]) seqId d tokens logprobs := by
  have hgroup : 0 < s.group := s.config.one_le_group
  have hget : ∀ {α : Type} (x : List α), (List.replicate (d * s.group) [] ++ [x]).getD (d * s.group) [] = x := by
    intro α x
    rw [List.getD_append_right _ _ _ _ (by simp)]
    simp
  refine ⟨by simp, d * s.group, 0, Nat.mul_div_cancel _ hgroup, ?_, ?_, ?_⟩
  · rw [hget]; rfl
  · rw [hget]; rfl
  · rw [hget]; rfl

/-- The tokens can be given one by one from every state. -/
theorem oneByOne_exists (seqId d : ℕ) (s : Scheduler) (tokens : List ℤ) (logprobs : List ℚ) :
    ∃ s' emitted, OneByOne seqId d s tokens logprobs s' emitted := by
  induction tokens generalizing s logprobs with
  | nil => exact ⟨s, [], .none s logprobs⟩
  | cons token tokens ih =>
    have hgives := gives_single s seqId d [token] (logprobs.take 1)
    cases tokens with
    | nil => exact ⟨_, _, .last hgives (.inl rfl)⟩
    | cons token' tokens =>
      cases hrunning : (s.postprocessImpl (List.replicate (d * s.group) [] ++ [[seqId]])
          (List.replicate (d * s.group) [] ++ [[[token]]])
            (List.replicate (d * s.group) [] ++ [[logprobs.take 1]])).isRunning
            seqId with
      | false => exact ⟨_, _, .last hgives (.inr hrunning)⟩
      | true =>
        obtain ⟨s', emitted, hrest⟩ := ih _ logprobs.tail
        exact ⟨s', _, .next hgives hrunning ⟨rfl, rfl, rfl, rfl⟩ hrest⟩

omit [Xxh3] in
/-- The tokens that are applied start the row, and no token follows one after which the sequence ends. -/
theorem appendTokens_prefix (s : Scheduler) (a : Sequence) (tokens : List ℤ) (logprobs : List ℚ) :
    (s.appendTokens a tokens logprobs).2.1 <+: tokens ∧
      ∀ before after, (s.appendTokens a tokens logprobs).2.1 = before ++ after → before ≠ [] → after ≠ [] →
        s.endsAfter a before logprobs = false := by
  induction tokens generalizing a logprobs with
  | nil =>
    refine ⟨List.prefix_refl _, fun before after h hbefore => ?_⟩
    exact absurd (List.append_eq_nil_iff.1 h.symm).1 hbefore
  | cons token tokens ih =>
    -- the loop of the source breaks behind a token that ends the sequence
    cases hends : s.endsAfter a [token] (logprobs.take 1) with
    | true =>
      rw [appendTokens_last hends, appendTokens_take_one]
      have hlen : (s.appendTokens a [token] logprobs).2.1 = [] ∨
        (s.appendTokens a [token] logprobs).2.1 = [token] := by
        unfold appendTokens
        split
        case isTrue =>
          dsimp only
          split
          · exact .inr rfl
          · exact .inr rfl
        case isFalse => exact .inl rfl
      refine ⟨?_, fun before after h hbefore hafter => ?_⟩
      · rcases hlen with h | h <;> rw [h]
        · exact List.nil_prefix
        · exact ⟨tokens, rfl⟩
      · have hcount := congrArg List.length h
        rw [List.length_append] at hcount
        have := List.length_pos_of_ne_nil hbefore
        have := List.length_pos_of_ne_nil hafter
        rcases hlen with h | h <;> rw [h] at hcount <;> simp at hcount <;> omega
    | false =>
      obtain ⟨-, -, hloop⟩ := appendTokens_cons hends tokens
      obtain ⟨hpre, hgoes⟩ := ih (a.pushToken token logprobs.head?) logprobs.tail
      rw [hloop]
      refine ⟨(List.cons_prefix_cons).2 ⟨rfl, hpre⟩, fun before after h hbefore hafter => ?_⟩
      obtain ⟨first, before, rfl⟩ := List.exists_cons_of_ne_nil hbefore
      have htail : (s.appendTokens (a.pushToken token logprobs.head?) tokens logprobs.tail).2.1 = before ++ after :=
        List.tail_eq_of_cons_eq h
      obtain rfl : token = first := List.head_eq_of_cons_eq h
      by_cases hnil : before = []
      · subst hnil
        rw [endsAfter, appendTokens_take_one] at hends
        exact hends
      · obtain ⟨-, -, hshort⟩ := appendTokens_cons hends before
        have := hgoes before after htail hnil hafter
        unfold endsAfter at this ⊢
        rwa [hshort]

/-- **A bundle is the same as its tokens one by one**, when it is not empty: the same outcome and the same tokens
emitted, a part of the bundle in which no token follows one that ends the sequence.  An empty bundle changes no token
and repeats the terminal test on the sequence as it is. -/
theorem bundle_eq_oneByOne (hmode : s.config.mode ≠ .prefill) (hdummy : seqId ∉ s.dummySeqIds)
    (ha : s.seqTable seqId = some a) (hdone : a.PrefillDone)
    (hgives : Gives s.group groups rows logs seqId d tokens logprobs)
    (hone : OneByOne seqId d s tokens logprobs s' emitted) :
    (tokens ≠ [] → outcome s (s.postprocessImpl groups rows logs) seqId d = outcome s s' seqId d ∧
      (s.postprocessImpl groups rows logs).stepTokens seqId = emitted) ∧
    (tokens = [] → (s.postprocessImpl groups rows logs).stepTokens seqId = [] ∧
      outcome s (s.postprocessImpl groups rows logs) seqId d = some ⟨a.tokenState,
        if s.hitEosOrLimit a then .finished else .running, !s.hitEosOrLimit a,
          s.hasRank seqId && s.hitEosOrLimit a⟩) ∧
    (s.postprocessImpl groups rows logs).stepTokens seqId <+: tokens ∧
    ∀ before after, (s.postprocessImpl groups rows logs).stepTokens seqId = before ++ after →
      before ≠ [] → after ≠ [] →
      s.endsAfter a before logprobs = false := by
  obtain ⟨hleaves, htokens⟩ := postprocessImpl_leaves hmode hdummy ha hdone hgives
  refine ⟨fun hne => ?_, fun hnil => ?_, ?_⟩
  · obtain ⟨hsteps, hemitted⟩ := hone.leaves hmode hdummy ha hdone hne
    exact ⟨hleaves.outcome_eq.trans hsteps.outcome_eq.symm, htokens.trans hemitted.symm⟩
  · subst hnil
    exact ⟨htokens, hleaves.outcome_eq⟩
  · rw [htokens]
    exact appendTokens_prefix s a tokens logprobs

end steps

/-! ## Evaluated batches -/

section evaluated

attribute [local instance] codeHash

/-- A hybrid engine that ends a stream at token `9`. -/
def eosConfig : SchedulerConfig where
  maxNumSeqs := 8
  maxNumBatchedTokens := 8
  maxModelLen := 100
  eosIds := [9]
  numKvcacheBlocks := 8
  kvcacheBlockSize := 4

/-- Sequence `0` after its prompt was scheduled as a whole. -/
def prefilled (prompt : List ℤ) : Scheduler :=
  ((Scheduler.new eosConfig).addSequence (requestToSequence { seqId := 0, promptTokenIds := prompt })).schedule.2

theorem prefilled_done (prompt : List ℤ) (h : ((prefilled prompt).seqTable 0).any (fun a =>
    decide (promptTarget a ≤ a.numTokens) && decide (a.numTokens ≤ a.tokenIds.length)) = true) :
    ∃ a, (prefilled prompt).seqTable 0 = some a ∧ a.PrefillDone := by
  obtain ⟨a, ha, hdone⟩ := (Option.any_eq_true _ _).1 h
  rw [Bool.and_eq_true, decide_eq_true_eq, decide_eq_true_eq] at hdone
  exact ⟨a, ha, hdone.1, hdone.2⟩

theorem bundle_eq_oneByOne_stops :
    ∃ s' emitted, OneByOne 0 0 (prefilled [1, 2, 3]) [4, 9, 7, 8] [-1, -2, -3] s' emitted ∧
    emitted = [4, 9] ∧ (s'.seqTable 0).map (·.completionLogprobs) = some [-1, -2] := by
  obtain ⟨s', emitted, hone⟩ := oneByOne_exists 0 0 (prefilled [1, 2, 3]) [4, 9, 7, 8] [-1, -2, -3]
  obtain ⟨a, ha, hdone⟩ := prefilled_done [1, 2, 3] (by decide +kernel)
  have hgives := gives_single (prefilled [1, 2, 3]) 0 0 [4, 9, 7, 8] [-1, -2, -3]
  obtain ⟨houtcome, hemitted⟩ :=
    (bundle_eq_oneByOne (by decide +kernel) (by decide +kernel) ha hdone hgives hone).1 (by simp)
  refine ⟨s', emitted, hone, ?_, ?_⟩
  · rw [← hemitted]
    decide +kernel
  · have hlogs := congrArg (Option.map (fun o => o.state.completionLogprobs)) houtcome
    unfold outcome at hlogs
    rw [Option.map_map, Option.map_map] at hlogs
    exact hlogs.symm.trans (by decide +kernel)

/-- The prompt ends with an end-of-stream token: an empty row finishes the sequence, no row leaves it running. -/
theorem not_bundle_eq_oneByOne : ¬ ∀ (s s' : Scheduler) (seqId d : ℕ) (a : Sequence) (groups : List (List ℕ))
    (rows : List (List (List ℤ))) (logs : List (List (List ℚ))) (tokens emitted : List ℤ) (logprobs : List ℚ),
    s.config.mode ≠ .prefill → seqId ∉ s.dummySeqIds → s.seqTable seqId = some a → a.PrefillDone →
    Gives s.group groups rows logs seqId d tokens logprobs → OneByOne seqId d s tokens logprobs s' emitted →
    outcome s (s.postprocessImpl groups rows logs) seqId d = outcome s s' seqId d ∧
      (s.postprocessImpl groups rows logs).stepTokens seqId = emitted := by
  intro h
  obtain ⟨a, ha, hdone⟩ := prefilled_done [1, 2, 9] (by decide +kernel)
  have heq :=
    (h (prefilled [1, 2, 9]) (prefilled [1, 2, 9]) 0 0 a _ _ _ [] [] [] (by decide +kernel) (by decide +kernel) ha
    hdone (gives_single (prefilled [1, 2, 9]) 0 0 [] []) (.none _ _)).1
  have hstatus := congrArg (Option.map (fun o => o.status)) heq
  unfold outcome at hstatus
  rw [Option.map_map, Option.map_map] at hstatus
  revert hstatus
  decide +kernel

end evaluated

end Scheduler

end NanoEngine
