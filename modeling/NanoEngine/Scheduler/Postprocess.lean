import NanoEngine.Scheduler.Frame

/-!
# NanoEngine.Scheduler.Postprocess — what postprocessing does to one sequence

* `appendTokens_*`: the tokens that are applied are appended, and nothing else of the sequence's cache state moves.
* `PostFrame seqId s s'`: postprocessing one sequence leaves the other sequences and the waiting queues alone.
* `PostEntry`: what happens to the entry of the sequence itself.
-/

namespace NanoEngine

/-- Only tokens, log-probabilities and the counters that follow them changed. -/
structure Sequence.Appends (applied : List ℤ) (a b : Sequence) : Prop where
  seqId : b.seqId = a.seqId
  status : b.status = a.status
  tokenIds : b.tokenIds = a.tokenIds ++ applied
  lastToken : b.lastToken = (applied.getLast?).getD a.lastToken
  numTokens : b.numTokens = if applied = [] then a.numTokens else ((a.tokenIds ++ applied).length : ℤ)
  numPromptTokens : b.numPromptTokens = a.numPromptTokens
  numCheckpointedTokens : b.numCheckpointedTokens = a.numCheckpointedTokens
  numCachedTokens : b.numCachedTokens = a.numCachedTokens
  samplingParams : b.samplingParams = a.samplingParams
  lastScheduledStep : b.lastScheduledStep = a.lastScheduledStep
  hostBlockTable : b.hostBlockTable = a.hostBlockTable
  hostBlockTables : b.hostBlockTables = a.hostBlockTables
  lastSwappedOutStep : b.lastSwappedOutStep = a.lastSwappedOutStep
  activeDpIdx : b.activeDpIdx = a.activeDpIdx
  activeGroupId : b.activeGroupId = a.activeGroupId
  activeBlockTable : b.activeBlockTable = a.activeBlockTable
  visionSlots : b.visionSlots = a.visionSlots

theorem Sequence.Appends.nil (a : Sequence) : Sequence.Appends [] a a :=
  ⟨rfl, rfl, (List.append_nil _).symm, rfl, rfl, rfl, rfl, rfl, rfl, rfl, rfl, rfl, rfl, rfl, rfl, rfl, rfl⟩

theorem Sequence.Appends.push (a : Sequence) (token : ℤ) (logprob : Option ℚ) :
    Sequence.Appends [token] a (a.pushToken token logprob) :=
  ⟨rfl, rfl, rfl, rfl, rfl, rfl, rfl, rfl, rfl, rfl, rfl, rfl, rfl, rfl, rfl, rfl, rfl⟩

theorem Sequence.Appends.cons {a b c : Sequence} {token : ℤ} {applied : List ℤ} (h : Sequence.Appends [token] a b)
    (k : Sequence.Appends applied b c) : Sequence.Appends (token :: applied) a c where
  seqId := k.seqId.trans h.seqId
  status := k.status.trans h.status
  tokenIds := by rw [k.tokenIds, h.tokenIds, List.append_assoc, List.singleton_append]
  lastToken := by
    rw [k.lastToken, h.lastToken]
    cases applied with
    | nil => rfl
    | cons x xs => simp [List.getLast?_cons]
  numTokens := by
    rw [k.numTokens, h.numTokens, h.tokenIds]
    cases applied with
    | nil => simp
    | cons x xs => simp
  numPromptTokens := k.numPromptTokens.trans h.numPromptTokens
  numCheckpointedTokens := k.numCheckpointedTokens.trans h.numCheckpointedTokens
  numCachedTokens := k.numCachedTokens.trans h.numCachedTokens
  samplingParams := k.samplingParams.trans h.samplingParams
  lastScheduledStep := k.lastScheduledStep.trans h.lastScheduledStep
  hostBlockTable := k.hostBlockTable.trans h.hostBlockTable
  hostBlockTables := k.hostBlockTables.trans h.hostBlockTables
  lastSwappedOutStep := k.lastSwappedOutStep.trans h.lastSwappedOutStep
  activeDpIdx := k.activeDpIdx.trans h.activeDpIdx
  activeGroupId := k.activeGroupId.trans h.activeGroupId
  activeBlockTable := k.activeBlockTable.trans h.activeBlockTable
  visionSlots := k.visionSlots.trans h.visionSlots

namespace Scheduler

/-- `append_tokens` appends what it reports as applied. -/
theorem appendTokens_appends (s : Scheduler) (seq : Sequence) (tokens : List ℤ) (logprobs : List ℚ) :
    Sequence.Appends (s.appendTokens seq tokens logprobs).2.1 seq (s.appendTokens seq tokens logprobs).1 := by
  induction tokens generalizing seq logprobs with
  | nil => exact .nil seq
  | cons token tokens ih =>
    unfold appendTokens
    split
    · dsimp only
      split
      · exact .push seq token _
      · exact (Sequence.Appends.push seq token _).cons (ih _ _)
    · exact .nil seq

/-- Nothing is applied exactly when there is no token or no room for one. -/
theorem appendTokens_eq_nil_iff (s : Scheduler) (seq : Sequence) (tokens : List ℤ) (logprobs : List ℚ) :
    (s.appendTokens seq tokens logprobs).2.1 = [] ↔ tokens = [] ∨ s.canAppend seq = false := by
  cases tokens with
  | nil => simp [appendTokens]
  | cons token tokens =>
    unfold appendTokens
    split
    case isTrue h =>
      dsimp only
      split <;> simp [h]
    case isFalse h => simpa using h

/-- The loop reads the configuration only. -/
theorem appendTokens_congr {s s' : Scheduler} (h : s'.config = s.config) (seq : Sequence) (tokens : List ℤ)
    (logprobs : List ℚ) : s'.appendTokens seq tokens logprobs = s.appendTokens seq tokens logprobs := by
  induction tokens generalizing seq logprobs with
  | nil => rfl
  | cons token tokens ih =>
    unfold appendTokens canAppend terminalAfterAppend
    rw [h]
    simp only [ih]

/-! ## One sequence -/

/-- Postprocessing `seqId` leaves the other sequences and the waiting queues alone. -/
structure PostFrame (seqId : ℕ) (s s' : Scheduler) : Prop where
  config : s'.config = s.config
  waiting : s'.waiting = s.waiting
  waitingMigration : s'.waitingMigration = s.waitingMigration
  dummySeqIds : s'.dummySeqIds = s.dummySeqIds
  currentStep : s'.currentStep = s.currentStep
  others : ∀ id, id ≠ seqId → s'.seqTable id = s.seqTable id
  missing : s.seqTable seqId = none → s'.seqTable seqId = none
  known : (s.seqTable seqId).isSome → (s'.seqTable seqId).isSome
  lastOthers : ∀ id, id ≠ seqId → s'.lastStepTokenIds id = s.lastStepTokenIds id

theorem PostFrame.refl (seqId : ℕ) (s : Scheduler) : PostFrame seqId s s :=
  ⟨rfl, rfl, rfl, rfl, rfl, fun _ _ => rfl, fun h => h, fun h => h, fun _ _ => rfl⟩

theorem PostFrame.trans {seqId : ℕ} {s s' s'' : Scheduler} (h : PostFrame seqId s s') (k : PostFrame seqId s' s'') :
    PostFrame seqId s s'' where
  config := k.config.trans h.config
  waiting := k.waiting.trans h.waiting
  waitingMigration := k.waitingMigration.trans h.waitingMigration
  dummySeqIds := k.dummySeqIds.trans h.dummySeqIds
  currentStep := k.currentStep.trans h.currentStep
  others := fun id hid => (k.others id hid).trans (h.others id hid)
  missing := fun hn => k.missing (h.missing hn)
  known := fun hk => k.known (h.known hk)
  lastOthers := fun id hid => (k.lastOthers id hid).trans (h.lastOthers id hid)

theorem Frame.post {R : Sequence → Sequence → Prop} {seqId : ℕ} {s s' : Scheduler} (h : Frame R seqId s s') :
    PostFrame seqId s s' where
  config := h.config
  waiting := h.waiting
  waitingMigration := h.waitingMigration
  dummySeqIds := h.dummySeqIds
  currentStep := h.currentStep
  others := h.others
  missing := h.missing
  known := fun hk => by
    obtain ⟨a, ha⟩ := Option.isSome_iff_exists.1 hk
    obtain ⟨b, hb, -⟩ := h.entry a ha
    simp [hb]
  lastOthers := fun id _ => by rw [h.lastStepTokenIds]

section postprocess

variable [Xxh3]

/-- What `postprocessAppend` changes: the entry of its sequence, the cache and the record of the step's tokens. -/
structure PostAppended (seqId : ℕ) (seq : Sequence) (tokens : List ℤ) (logprobs : List ℚ) (s s' : Scheduler)
    (seq' : Sequence) : Prop extends PostFrame seqId s s' where
  running : s'.running = s.running
  prefilling : s'.prefilling = s.prefilling
  toBeMigrated : s'.toBeMigrated = s.toBeMigrated
  table : s'.seqTable = Function.update s.seqTable seqId (some seq')
  last : s'.lastStepTokenIds = Function.update s.lastStepTokenIds seqId
    (some (s.appendTokens (if seq.status = .prefilling then { seq with status := .running } else seq) tokens
      logprobs).2.1)
  entry : seq' =
    (s.appendTokens (if seq.status = .prefilling then { seq with status := .running } else seq) tokens logprobs).1

/-- What the first half of one iteration does to its sequence. -/
theorem postprocessAppend_spec (s : Scheduler) (seqId : ℕ) (seq : Sequence) (tokens : List ℤ) (logprobs : List ℚ)
    (hseq : s.seqTable seqId = some seq) :
    PostAppended seqId seq tokens logprobs s (s.postprocessAppend seqId seq tokens logprobs).2
      (s.postprocessAppend seqId seq tokens logprobs).1.1 := by
  unfold postprocessAppend
  dsimp only
  generalize hstart : (if seq.status = .prefilling then { seq with status := SequenceStatus.running } else seq) = start
  -- the first token after a prefill commits the blocks of the prompt before it is appended
  split
  · have hf := (commitHbmBlocks_frame { s with seqTable := Function.update s.seqTable seqId (some start) } seqId
      (promptTarget start)).toSameQueues
    have ht := commitHbmBlocks_seqTable { s with seqTable := Function.update s.seqTable seqId (some start) } seqId
      (promptTarget start)
    have happ := appendTokens_congr hf.config start tokens logprobs
    have happ₀ := @appendTokens_congr s { s with seqTable := Function.update s.seqTable seqId (some start) } rfl start
      tokens logprobs
    refine ⟨⟨hf.config, hf.waiting, hf.waitingMigration, hf.dummySeqIds, hf.currentStep,
      fun id hid => ?_, fun hn => ?_,
      fun _ => ?_, fun id hid => ?_⟩, hf.running, hf.prefilling, hf.toBeMigrated, ?_, ?_, ?_⟩
    · simp [ht, Function.update_of_ne hid]
    · simp [hseq] at hn
    · simp
    · simp [hf.lastStepTokenIds, Function.update_of_ne hid]
    · simp [ht]
    · simp only [hf.lastStepTokenIds, hstart, happ, happ₀]
    · simp only [hstart, happ, happ₀]
  · have happ₀ := @appendTokens_congr s
      { s with seqTable := Function.update s.seqTable seqId (some start) } rfl start
      tokens logprobs
    refine ⟨⟨rfl, rfl, rfl, rfl, rfl, fun id hid => ?_, fun hn => ?_, fun _ => ?_, fun id hid => ?_⟩, rfl,
      rfl, rfl, ?_,
      ?_, ?_⟩
    · simp [Function.update_of_ne hid]
    · simp [hseq] at hn
    · simp
    · simp [Function.update_of_ne hid]
    · simp
    · simp only [hstart, happ₀]
    · simp only [hstart, happ₀]

/-- The second half moves the sequence between the queues and changes no other. -/
theorem postprocessPlace_frame (s : Scheduler) (d seqId : ℕ) (seq : Sequence) (hitTerminal : Bool) :
    PostFrame seqId s (s.postprocessPlace d seqId seq hitTerminal) := by
  unfold postprocessPlace
  split
  · have hf : Frame (fun _ _ => True) seqId s (s.updateSeq seqId (fun seq => { seq with status := .finished })) :=
      Frame.of_updateSeq _ _ fun _ => trivial
    exact hf.post.trans (releaseSeq_frame _ seqId : CacheFrame seqId _ _).post
  · split
    · have hf : Frame (fun _ _ => True) seqId s
        (s.updateSeq seqId (fun seq => { seq with status := .toBeMigrated })) :=
        Frame.of_updateSeq _ _ fun _ => trivial
      exact hf.post.trans ⟨rfl, rfl, rfl, rfl, rfl, fun _ _ => rfl, fun h => h, fun h => h, fun _ _ => rfl⟩
    · have hf₁ := cacheEnsureBlocksForSeq_frame s seqId false
      have hf₂ : Frame (fun _ _ => True) seqId (s.cacheEnsureBlocksForSeq seqId false).2
          ((s.cacheEnsureBlocksForSeq seqId false).2.updateSeq seqId (fun seq => { seq with status := .running })) :=
        Frame.of_updateSeq _ _ fun _ => trivial
      exact hf₁.post.trans (hf₂.post.trans
        ⟨rfl, rfl, rfl, rfl, rfl, fun _ _ => rfl, fun h => h, fun h => h, fun _ _ => rfl⟩)

theorem postprocessSeq_frame (s : Scheduler) (d seqId : ℕ) (row : Option (List ℤ)) (logprobs : List ℚ) :
    PostFrame seqId s (s.postprocessSeq d seqId row logprobs) := by
  unfold postprocessSeq
  split
  · exact .refl seqId s
  · split
    case h_1 => exact ⟨rfl, rfl, rfl, rfl, rfl, fun _ _ => rfl, fun h => h, fun h => h, fun _ _ => rfl⟩
    case h_2 tokens =>
      split
      case h_1 => exact .refl seqId s
      case h_2 seq hseq =>
        split
        · have hf : Frame (fun _ _ => True) seqId (s.commitHbmBlocks seqId seq.numTokens)
              ((s.commitHbmBlocks seqId seq.numTokens).updateSeq seqId
                (fun seq => { seq with status := .prefilling })) :=
            Frame.of_updateSeq _ _ fun _ => trivial
          exact (commitHbmBlocks_frame s seqId _).post.trans (hf.post.trans
            ⟨rfl, rfl, rfl, rfl, rfl, fun _ _ => rfl, fun h => h, fun h => h, fun _ _ => rfl⟩)
        · exact (postprocessAppend_spec s seqId seq tokens logprobs hseq).toPostFrame.trans
            (postprocessPlace_frame _ d seqId _ _)

/-- The entry of a postprocessed sequence: tokens are appended once the target is reached, and nothing else of what
prefill reads changes. -/
structure PostEntry (a b : Sequence) : Prop where
  seqId : b.seqId = a.seqId
  numPromptTokens : b.numPromptTokens = a.numPromptTokens
  numCheckpointedTokens : b.numCheckpointedTokens = a.numCheckpointedTokens
  hostBlockTable : b.hostBlockTable = a.hostBlockTable
  visionSlots : b.visionSlots = a.visionSlots
  appended : ∃ applied, b.tokenIds = a.tokenIds ++ applied ∧
    b.numTokens = (if applied = [] then a.numTokens else ((a.tokenIds ++ applied).length : ℤ)) ∧
    (applied ≠ [] → promptTarget a ≤ a.numTokens)

omit [Xxh3] in
theorem PostEntry.of_keeps {a b : Sequence} (h : a.KeepsRequest b) (hn : b.numTokens = a.numTokens) : PostEntry a b :=
  ⟨h.seqId, h.numPromptTokens, h.numCheckpointedTokens, h.hostBlockTable, h.visionSlots, [],
    by simp [h.tokenIds], by simp [hn],
    fun h => absurd rfl h⟩

omit [Xxh3] in
theorem PostEntry.refl (a : Sequence) : PostEntry a a := .of_keeps (.refl a) rfl

theorem postprocessPlace_keeps (s : Scheduler) (d seqId : ℕ) (seq : Sequence) (hitTerminal : Bool) {a : Sequence}
    (ha : s.seqTable seqId = some a) : ∃ b, (s.postprocessPlace d seqId seq hitTerminal).seqTable seqId = some b ∧
      a.KeepsRequest b ∧ b.numTokens = a.numTokens := by
  unfold postprocessPlace
  split
  · exact ⟨{ a with status := .finished }, by simp [releaseSeq, setCache, updateSeq, ha],
      ⟨⟨rfl, rfl, rfl, rfl, rfl, rfl, rfl⟩, rfl, rfl, rfl, rfl, rfl⟩, rfl⟩
  · split
    · exact ⟨{ a with status := .toBeMigrated }, by simp [updateSeq, ha],
        ⟨⟨rfl, rfl, rfl, rfl, rfl, rfl, rfl⟩, rfl, rfl, rfl, rfl, rfl⟩, rfl⟩
    · obtain ⟨b, hb, hab⟩ := (cacheEnsureBlocksForSeq_frame s seqId false).entry a ha
      have hkeep := hab.keepsRequest.trans (c := { b with status := .running })
        ⟨⟨rfl, rfl, rfl, rfl, rfl, rfl, rfl⟩, rfl, rfl, rfl, rfl, rfl⟩
      exact ⟨{ b with status := .running }, by simp [pushRunning, updateSeq, hb], hkeep, hab.numTokens⟩

/-- One iteration leaves the entry of its sequence, with tokens added at most. -/
theorem postprocessSeq_entry (s : Scheduler) (d seqId : ℕ) (row : Option (List ℤ))
    (logprobs : List ℚ) {a : Sequence}
    (ha : s.seqTable seqId = some a) : ∃ b, (s.postprocessSeq d seqId row logprobs).seqTable seqId = some b ∧
      PostEntry a b := by
  unfold postprocessSeq
  split
  · exact ⟨a, ha, .refl a⟩
  -- a dummy has no entry to change; a row that is missing changes none
  · cases row with
    | none => exact ⟨a, ha, .refl a⟩
    | some tokens =>
      rw [ha]
      dsimp only
      split
      case isTrue hlt =>
        refine ⟨{ a with status := .prefilling }, ?_,
          .of_keeps ⟨⟨rfl, rfl, rfl, rfl, rfl, rfl, rfl⟩, rfl, rfl, rfl, rfl, rfl⟩ rfl⟩
        simp [pushPrefilling, updateSeq, commitHbmBlocks_seqTable, ha]
      case isFalse hlt =>
        have hspec := postprocessAppend_spec s seqId a tokens logprobs ha
        have hentry := hspec.entry
        generalize (s.postprocessAppend seqId a tokens logprobs).1.1 = c at hspec hentry
        obtain ⟨b, hb, hkeep, hnum⟩ :=
          postprocessPlace_keeps (s.postprocessAppend seqId a tokens logprobs).2 d seqId
          c (s.postprocessAppend seqId a tokens logprobs).1.2 (a := c) (by rw [hspec.table, Function.update_self])
        have hstart : a.KeepsRequest (if a.status = .prefilling then { a with status := .running } else a) ∧
            (if a.status = .prefilling then { a with status := .running } else a).numTokens = a.numTokens := by
          split
          · exact ⟨⟨⟨rfl, rfl, rfl, rfl, rfl, rfl, rfl⟩, rfl, rfl, rfl, rfl, rfl⟩, rfl⟩
          · exact ⟨.refl a, rfl⟩
        generalize (if a.status = .prefilling then { a with status := SequenceStatus.running } else a) = start
          at hstart hentry
        have happ := appendTokens_appends s start tokens logprobs
        rw [← hentry] at happ
        refine ⟨b, hb, hkeep.seqId.trans (happ.seqId.trans hstart.1.seqId),
          hkeep.numPromptTokens.trans (happ.numPromptTokens.trans hstart.1.numPromptTokens),
          hkeep.numCheckpointedTokens.trans (happ.numCheckpointedTokens.trans hstart.1.numCheckpointedTokens),
          hkeep.hostBlockTable.trans (happ.hostBlockTable.trans hstart.1.hostBlockTable),
          hkeep.visionSlots.trans (happ.visionSlots.trans hstart.1.visionSlots),
          (s.appendTokens start tokens logprobs).2.1, ?_, ?_, fun _ => by omega⟩
        · rw [hkeep.tokenIds, happ.tokenIds, hstart.1.tokenIds]
        · rw [hnum, happ.numTokens, hstart.1.tokenIds, hstart.2]

/-- Postprocessing a sequence queues no other one. -/
theorem postprocessSeq_queued (s : Scheduler) (d seqId : ℕ) (row : Option (List ℤ))
    (logprobs : List ℚ) {d' id : ℕ}
    (h : id ∈ (s.postprocessSeq d seqId row logprobs).running d' ∨
      id ∈ (s.postprocessSeq d seqId row logprobs).prefilling d') :
    (id ∈ s.running d' ∨ id ∈ s.prefilling d') ∨ id = seqId ∧ seqId ∉ s.dummySeqIds := by
  have hpush : ∀ s' : Scheduler, id ∈ (s'.pushRunning d seqId).running d' → id ∈ s'.running d' ∨ id = seqId :=
    fun s' hid => (mem_pushRunning.1 hid).imp_right And.right
  unfold postprocessSeq at h
  split at h
  · exact .inl h
  case isFalse hreal =>
    by_cases hid : id = seqId
    · exact .inr ⟨hid, hreal⟩
    · refine .inl ?_
      cases row with
      | none => exact h.imp_left fun hm => (hpush s hm).resolve_right hid
      | some tokens =>
        dsimp only at h
        split at h
        case h_1 => exact h
        case h_2 seq hseq =>
          split at h
          · have hf := (commitHbmBlocks_frame s seqId seq.numTokens).toSameQueues
            refine h.imp (fun hm => hf.running ▸ hm) fun hm => hf.prefilling ▸ ?_
            unfold pushPrefilling at hm
            by_cases hdd : d' = d
            · subst hdd
              simpa [hid, updateSeq] using hm
            · simpa [hdd, updateSeq] using hm
          · have hspec := postprocessAppend_spec s seqId seq tokens logprobs hseq
            rw [← hspec.running, ← hspec.prefilling]
            unfold postprocessPlace at h
            split at h
            · exact h
            · split at h
              · exact h
              · have hf := (cacheEnsureBlocksForSeq_frame (s.postprocessAppend seqId seq tokens logprobs).2 seqId
                  false).toSameQueues
                refine h.imp (fun hm => ?_) fun hm => hf.prefilling ▸ hm
                exact hf.running ▸ (hpush _ hm).resolve_right hid

/-- What every sequence of the groups keeps, the loops keep. -/
theorem postprocessGroups_induction {P : Scheduler → Prop} (k : ℕ) (groups : List (List ℕ))
    (hP : ∀ s d seqId row logprobs, seqId ∈ groups.flatten → P s → P (postprocessSeq s d seqId row logprobs))
    (rows : List (List (List ℤ))) (logprobs : List (List (List ℚ))) {s : Scheduler} (h : P s) :
    P (postprocessGroups k groups rows logprobs s) := by
  have hgroup : ∀ (d : ℕ) (ids : List ℕ), (∀ id ∈ ids, id ∈ groups.flatten) → ∀ (rows : List (List ℤ))
      (logprobs : List (List ℚ)) (s : Scheduler), P s → P (postprocessGroup d ids rows logprobs s) := by
    intro d ids
    induction ids with
    | nil => intro _ rows logprobs s h; exact h
    | cons id ids ih =>
      intro hids rows logprobs s h
      exact ih (fun id' hid' => hids id' (List.mem_cons_of_mem _ hid')) _ _ _
        (hP s d id _ _ (hids id List.mem_cons_self) h)
  have hgroups : ∀ (rest : List (List ℕ)),
    (∀ ids ∈ rest, ∀ id ∈ ids, id ∈ groups.flatten) → ∀ (k : ℕ)
      (rows : List (List (List ℤ))) (logprobs : List (List (List ℚ))) (s : Scheduler), P s →
        P (postprocessGroups k rest rows logprobs s) := by
    intro rest
    induction rest with
    | nil => intro _ k rows logprobs s h; exact h
    | cons ids rest ih =>
      intro hrest k rows logprobs s h
      have htail := ih fun ids' hids' => hrest ids' (List.mem_cons_of_mem _ hids')
      unfold postprocessGroups
      cases rows with
      | nil => exact htail _ _ _ _ h
      | cons row rows => exact htail _ _ _ _ (hgroup _ ids (hrest ids List.mem_cons_self) _ _ _ h)
  exact hgroups groups (fun ids hids id hid => List.mem_flatten.2 ⟨ids, hids, hid⟩) k rows logprobs s h

theorem postprocessImpl_config (s : Scheduler) (groups : List (List ℕ)) (rows : List (List (List ℤ)))
    (logprobs : List (List (List ℚ))) :
    (s.postprocessImpl groups rows logprobs).config = s.config ∧
      (s.postprocessImpl groups rows logprobs).dummySeqIds = s.dummySeqIds :=
  postprocessGroups_induction (P := fun s' => s'.config = s.config ∧ s'.dummySeqIds = s.dummySeqIds) 0 groups
    (fun s' d seqId row logprobs _ h =>
      have hf := postprocessSeq_frame s' d seqId row logprobs
      ⟨hf.config.trans h.1, hf.dummySeqIds.trans h.2⟩) rows logprobs ⟨rfl, rfl⟩

end postprocess

end Scheduler

end NanoEngine
