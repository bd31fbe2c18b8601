import NanoEngine.Prefill.Cover
import NanoEngine.Queues.Main

/-!
# NanoEngine.Prefill.Schedule — what a `schedule` call hands to the runner

* `Sequence.Sound`: what holds of every entry of the table; a sequence with a host copy has reached its target.
* `Tracked g id a`: a sequence below its target is in the middle of the run that `g` records for it.
* `coverTest`: an admitted sequence has no generated tokens below its target.
* `PrefillInv`: the invariant of the admission loop; every scheduled sequence is a `Chunk` that starts where its run
  ends.
-/

namespace NanoEngine

open Counting Scheduler PrefillState Transition

/-! ## Entries -/

structure Sequence.Sound (seqId : ℕ) (a : Sequence) : Prop where
  seqId : a.seqId = seqId
  target : promptTarget a ≤ a.tokenIds.length
  host : a.hostBlockTable ≠ [] → promptTarget a ≤ a.numTokens

namespace Sequence.Sound

variable {id : ℕ} {a b : Sequence}

theorem prompt_le (h : a.Sound id) : a.numPromptTokens ≤ a.tokenIds.length := by
  have := h.target
  unfold promptTarget at this
  omega

theorem keepsHost (h : a.Sound id) (k : a.KeepsHost b) : b.Sound id where
  seqId := k.seqId.trans h.seqId
  target := by
    unfold promptTarget
    rw [k.numPromptTokens, k.numCheckpointedTokens, k.tokenIds]
    exact h.target
  host := by
    unfold promptTarget
    rw [k.hostBlockTable, k.numPromptTokens, k.numCheckpointedTokens, k.numTokens]
    exact h.host

theorem recordsCached (h : a.Sound id) (k : a.RecordsCached b) : b.Sound id := by
  obtain ⟨x, y, rfl⟩ := k
  exact ⟨h.seqId, h.target, h.host⟩

/-- Without a host copy nothing is asked of the counters. -/
theorem keepsRequest (h : a.Sound id) (k : a.KeepsRequest b) (hhost : a.hostBlockTable = []) : b.Sound id where
  seqId := k.seqId.trans h.seqId
  target := by
    unfold promptTarget
    rw [k.numPromptTokens, k.numCheckpointedTokens, k.tokenIds]
    exact h.target
  host := fun hne => absurd (k.hostBlockTable.trans hhost) hne

theorem restores (h : a.Sound id) (k : RestoresEntry a b) : b.Sound id where
  seqId := k.seqId.trans h.seqId
  target := by
    unfold promptTarget
    rw [k.numPromptTokens, k.numCheckpointedTokens, k.tokenIds]
    exact h.target
  host := by
    unfold promptTarget
    rw [k.hostBlockTable, k.numPromptTokens, k.numCheckpointedTokens, k.numTokens]
    exact h.host

theorem requeues (h : a.Sound id) (k : RequeuesEntry a b) : b.Sound id where
  seqId := k.seqId.trans h.seqId
  target := by
    have := h.target
    unfold promptTarget at *
    rw [k.numPromptTokens, k.numCheckpointedTokens, k.tokenIds]
    omega
  host := fun _ => by
    have := h.target
    unfold promptTarget at *
    rw [k.numPromptTokens, k.numCheckpointedTokens, k.numTokens]
    omega

end Sequence.Sound

def SoundTable (s : Scheduler) : Prop := ∀ id a, s.seqTable id = some a → a.Sound id

namespace SoundTable

variable {R : Sequence → Sequence → Prop} {seqId : ℕ} {s s' : Scheduler}

theorem congr (h : SoundTable s) (ht : s'.seqTable = s.seqTable) : SoundTable s' := by
  unfold SoundTable
  rw [ht]
  exact h

theorem entry (h : SoundTable s) (hothers : ∀ id, id ≠ seqId → s'.seqTable id = s.seqTable id)
    (hsound : ∀ b, s'.seqTable seqId = some b → b.Sound seqId) : SoundTable s' := by
  intro id b hb
  by_cases hid : id = seqId
  · subst hid
    exact hsound b hb
  · exact h id b (hothers id hid ▸ hb)

theorem frame (h : SoundTable s) (hf : Frame R seqId s s')
    (hR : ∀ a b, s.seqTable seqId = some a → R a b → a.Sound seqId → b.Sound seqId) : SoundTable s' := by
  refine h.entry hf.others fun b hb => ?_
  cases ha : s.seqTable seqId with
  | none =>
    rw [hf.missing ha] at hb
    cases hb
  | some a =>
    obtain ⟨b', hb', hab⟩ := hf.entry a ha
    rw [hb'] at hb
    cases hb
    exact hR a _ ha hab (h seqId a ha)

theorem preempted {d : ℕ} (h : SoundTable s) (hp : Preempted d seqId s s') : SoundTable s' := by
  refine h.entry hp.others fun b hb => ?_
  cases ha : s.seqTable seqId with
  | none =>
    rw [hp.missing ha] at hb
    cases hb
  | some a =>
    obtain ⟨b', hb', hab⟩ := hp.entry a ha
    rw [hb'] at hb
    cases hb
    exact (h seqId a ha).requeues hab

end SoundTable

namespace Sequence

/-- What the packer reads of a chunk. -/
structure SameChunk (a b : Sequence) : Prop where
  tokenIds : b.tokenIds = a.tokenIds
  numTokens : b.numTokens = a.numTokens
  prefillStartOffset : b.prefillStartOffset = a.prefillStartOffset
  numPromptTokens : b.numPromptTokens = a.numPromptTokens
  numCheckpointedTokens : b.numCheckpointedTokens = a.numCheckpointedTokens

variable {a b : Sequence}

theorem KeepsProgress.sameChunk (h : a.KeepsProgress b) : SameChunk a b :=
  ⟨h.tokenIds, h.numTokens, h.prefillStartOffset, h.numPromptTokens, h.numCheckpointedTokens⟩

theorem SameChunk.target (h : SameChunk a b) : promptTarget b = promptTarget a := by
  unfold promptTarget
  rw [h.numPromptTokens, h.numCheckpointedTokens]

end Sequence

/-- Below its target, `a` is where the recorded run ends, and its target is the prompt. -/
def Tracked (g : Prefills) (id : ℕ) (a : Sequence) : Prop :=
  a.numTokens < promptTarget a → promptTarget a ≤ a.numPromptTokens ∧
    ∃ run, g id = some run ∧ run.Covered ∧ run.At a.tokenIds (promptTarget a) a.numTokens

theorem Tracked.congr {g : Prefills} {id : ℕ} {a b : Sequence} (h : Tracked g id a) (ht : b.tokenIds = a.tokenIds)
    (hn : b.numTokens = a.numTokens) (hp : b.numPromptTokens = a.numPromptTokens)
    (hc : b.numCheckpointedTokens = a.numCheckpointedTokens) : Tracked g id b := by
  unfold Tracked promptTarget at *
  rw [ht, hn, hp, hc]
  exact h

/-! ## The test -/

section test

variable [Xxh3]

/-- An admitted sequence counts no token of its own below its target: it is fresh, or was preempted before its first
token. -/
def freshTarget : TryTest := fun st seqId dpIdx _ =>
  match st.tryOn seqId dpIdx with
  | (.ok (some _), _) => ((st.sched.seqTable seqId).map fun seq =>
      decide (seq.numCheckpointedTokens ≤ seq.numPromptTokens) && decide (0 ≤ seq.numCachedTokens)).getD true
  | _ => true

def coverTest : TryTest := fun st seqId dpIdx ranks =>
  queueTest st seqId dpIdx ranks && freshTarget st seqId dpIdx ranks

end test

/-! ## The invariant of the admission loop -/

/-- The chunk that a scheduled sequence is about to be served; a continuation starts where its run ends. -/
def Served (g : Prefills) (s₀ : Scheduler) (id : ℕ) (a : Sequence) : Prop :=
  a.Chunk ∧ (s₀.isPrefilling id = true → a.prefillStartOffset < promptTarget a ∧
    ∃ run, g id = some run ∧ run.Covered ∧ run.At a.tokenIds (promptTarget a) a.prefillStartOffset)

structure PrefillInv (L : Finset ℕ) (extra : List ℕ) (s₀ : Scheduler) (g : Prefills) (st : PrefillState) : Prop
    extends AdmitInv L extra st where
  sound : SoundTable st.sched
  queued : ∀ d < st.sched.dp, ∀ id, id ∈ st.sched.running d ∧ id ∉ st.scheduled d ∨
    id ∈ st.sched.prefilling d →
    ∀ a, st.sched.seqTable id = some a → Tracked g id a
  served : ∀ d < st.sched.dp, ∀ id ∈ st.scheduled d, ∃ a, st.sched.seqTable id = some a ∧ Served g s₀ id a
  continued : ∀ id, s₀.isPrefilling id = true →
    id ∈ extra ∨ ∃ d < st.sched.dp, id ∈ st.sched.prefilling d ∨ id ∈ st.scheduled d

/-- The sequence neither runs nor waits for its next chunk. -/
def Scheduler.Idle (s : Scheduler) (seqId : ℕ) : Prop :=
  ∀ d < s.dp, seqId ∉ s.running d ∧ seqId ∉ s.prefilling d

namespace OneQueue

variable {L : Finset ℕ} {extra : List ℕ} {s : Scheduler} {seqId : ℕ}

theorem idle (h : OneQueue L extra s)
    (hpos : 0 < s.waiting.count seqId + s.waitingMigration.count seqId + extra.count seqId) : s.Idle seqId := by
  have hle := h.le_one seqId
  unfold queueCount at hle
  intro d hd
  constructor <;> intro hmem
  · have := List.count_pos_iff.2 hmem
    have := count_le_totalCount hd s.running seqId
    omega
  · have := List.count_pos_iff.2 hmem
    have := count_le_totalCount hd s.prefilling seqId
    omega

/-- A waiting sequence is idle. -/
theorem idle_of_mem_queue {st : PrefillState} (h : OneQueue L extra st.sched) (hq : seqId ∈ st.queue) :
    st.sched.Idle seqId ∧ seqId ∉ extra := by
  have hwait : 0 < st.sched.waiting.count seqId + st.sched.waitingMigration.count seqId := by
    unfold queue at hq
    split at hq <;> have := List.count_pos_iff.2 hq <;> omega
  refine ⟨h.idle (Nat.add_pos_left hwait _), fun hmem => ?_⟩
  have := List.count_pos_iff.2 hmem
  have hle := h.le_one seqId
  unfold queueCount at hle
  omega

end OneQueue

namespace PrefillInv

variable {L : Finset ℕ} {extra : List ℕ} {s₀ : Scheduler} {g : Prefills} {st : PrefillState} {seqId d : ℕ}

/-- An idle sequence is changed: nothing is asked of it but to stay sound. -/
theorem entry {R : Sequence → Sequence → Prop} {s' : Scheduler} (h : PrefillInv L extra s₀ g st)
    (hidle : st.sched.Idle seqId) (hinv : AdmitInv L extra (st.withSched s')) (hf : Frame R seqId st.sched s')
    (hR : ∀ a b, st.sched.seqTable seqId = some a → R a b → a.Sound seqId → b.Sound seqId) :
    PrefillInv L extra s₀ g (st.withSched s') := by
  have hdp : s'.dp = st.sched.dp := congrArg SchedulerConfig.dp hf.config
  refine ⟨hinv, h.sound.frame hf hR, fun d hd id hid a ha => ?_, fun d hd id hid => ?_, fun id hid => ?_⟩
  · have hd : d < st.sched.dp := hdp ▸ hd
    change id ∈ s'.running d ∧ id ∉ st.scheduled d ∨ id ∈ s'.prefilling d at hid
    rw [hf.running, hf.prefilling] at hid
    have hne : id ≠ seqId := by
      rintro rfl
      rcases hid with hid | hid
      · exact (hidle d hd).1 hid.1
      · exact (hidle d hd).2 hid
    exact h.queued d hd id hid a (hf.others id hne ▸ ha)
  · have hd : d < st.sched.dp := hdp ▸ hd
    have hne : id ≠ seqId := fun heq => (hidle d hd).1 (heq ▸ h.running d id hid)
    obtain ⟨a, ha, hserved⟩ := h.served d hd id hid
    exact ⟨a, (hf.others id hne).trans ha, hserved⟩
  · refine (h.continued id hid).imp_right fun ⟨d, hd, hmem⟩ => ⟨d, hdp.symm ▸ hd, ?_⟩
    change id ∈ s'.prefilling d ∨ _
    rwa [hf.prefilling]

/-- Only the cache was changed. -/
theorem cache (h : PrefillInv L extra s₀ g st) (c : CacheState) :
    PrefillInv L extra s₀ g (st.withSched (st.sched.setCache c)) :=
  ⟨h.toAdmitInv.congr ⟨rfl, rfl, rfl, rfl, rfl, rfl, rfl, rfl, rfl⟩ fun _ _ => rfl, h.sound, h.queued,
    h.served, h.continued⟩

/-- An idle sequence joins the batch of a rank. -/
theorem join {a : Sequence} (groupId : ℕ) (newTokens : ℤ) (h : PrefillInv L (seqId :: extra) s₀ g st)
    (hd : d < st.sched.dp) (ha : st.sched.seqTable seqId = some a) (hserved : Served g s₀ seqId a) :
    PrefillInv L extra s₀ g (st.join d groupId seqId newTokens) := by
  have hidle : st.sched.Idle seqId := h.one.idle (by rw [List.count_cons_self]; omega)
  have htable : ∀ id, id ≠ seqId → (st.join d groupId seqId newTokens).sched.seqTable id = st.sched.seqTable id :=
    fun id hid => Function.update_of_ne hid _ _
  have hentry : (st.join d groupId seqId newTokens).sched.seqTable seqId =
      some { a with lastScheduledStep := st.sched.currentStep } := by
    change Function.update _ _ _ _ = _
    rw [Function.update_self]
    change Option.map _ (st.sched.seqTable seqId) = _
    rw [ha]
    rfl
  have hsched : ∀ d' id, id ∈ (st.join d groupId seqId newTokens).scheduled d' ↔
      id ∈ st.scheduled d' ∨ d' = d ∧ id = seqId := by
    intro d' id
    change id ∈ Function.update st.scheduled d _ d' ↔ _
    by_cases hdd : d' = d
    · subst hdd
      simp
    · simp [hdd]
  have hrun : ∀ d' id, id ∈ (st.join d groupId seqId newTokens).sched.running d' ↔
      id ∈ st.sched.running d' ∨ d' = d ∧ id = seqId := fun d' id => mem_pushRunning
  -- every other sequence has its entry, its queue and its row as before
  refine ⟨h.toAdmitInv.join groupId newTokens hd, h.sound.entry htable fun b hb => ?_, fun d' hd' id hid b hb => ?_,
    fun d' hd' id hid => ?_, fun id hid => ?_⟩
  · rw [hentry] at hb
    cases hb
    have hs := h.sound seqId a ha
    exact ⟨hs.seqId, hs.target, hs.host⟩
  · rw [hrun, hsched] at hid
    by_cases hne : id = seqId
    · subst hne
      rcases hid with ⟨hmem | hmem, hnot⟩ | hmem
      · exact absurd hmem (hidle d' hd').1
      · exact absurd (.inr hmem) hnot
      · exact absurd hmem (hidle d' hd').2
    · rw [htable id hne] at hb
      refine h.queued d' hd' id (hid.imp_left fun ⟨hmem, hnot⟩ => ⟨?_, fun hm => hnot (.inl hm)⟩) b hb
      exact hmem.resolve_right fun heq => hne heq.2
  · rcases (hsched d' id).1 hid with hmem | ⟨rfl, rfl⟩
    · have hne : id ≠ seqId := fun heq => (hidle d' hd').1 (heq ▸ h.running d' id hmem)
      obtain ⟨b, hb, hb'⟩ := h.served d' hd' id hmem
      exact ⟨b, (htable id hne).trans hb, hb'⟩
    · have hchunk := hserved.1
      exact ⟨_, hentry, ⟨hchunk.nonneg, hchunk.started, hchunk.within, hchunk.target, hchunk.prompt⟩, hserved.2⟩
  · rcases h.continued id hid with hmem | ⟨d', hd', hmem | hmem⟩
    · rcases List.mem_cons.1 hmem with rfl | hmem
      · exact .inr ⟨d, hd, .inr ((hsched d id).2 (.inr ⟨rfl, rfl⟩))⟩
      · exact .inl hmem
    · exact .inr ⟨d', hd', .inl hmem⟩
    · exact .inr ⟨d', hd', .inr ((hsched d' id).2 (.inl hmem))⟩

/-- A sequence at the end of its run, or beyond its target, is put back among the chunked prefills. -/
theorem pushPrefilling (h : PrefillInv L (seqId :: extra) s₀ g st) (hd : d < st.sched.dp)
    (htracked : ∀ a, st.sched.seqTable seqId = some a → Tracked g seqId a) :
    PrefillInv L extra s₀ g (st.withSched (st.sched.pushPrefilling d seqId)) := by
  have hpre : ∀ d' id, id ∈ (st.sched.pushPrefilling d seqId).prefilling d' ↔
      id ∈ st.sched.prefilling d' ∨ d' = d ∧ id = seqId := by
    intro d' id
    unfold Scheduler.pushPrefilling
    by_cases hdd : d' = d
    · subst hdd
      simp
    · simp [hdd]
  refine ⟨⟨h.one.requeue (queueCount_pushPrefilling hd seqId) fun _ => rfl, h.dummies,
    h.nodup, h.running⟩, h.sound,
    fun d' hd' id hid a ha => ?_, h.served, fun id hid => ?_⟩
  · by_cases hne : d' = d ∧ id = seqId
    · obtain ⟨-, rfl⟩ := hne
      exact htracked a ha
    · refine h.queued d' hd' id (hid.imp_right fun hmem => ?_) a ha
      exact ((hpre d' id).1 hmem).resolve_right hne
  · rcases h.continued id hid with hmem | ⟨d', hd', hmem | hmem⟩
    · rcases List.mem_cons.1 hmem with rfl | hmem
      · exact .inr ⟨d, hd, .inl ((hpre d id).2 (.inr ⟨rfl, rfl⟩))⟩
      · exact .inl hmem
    · exact .inr ⟨d', hd', .inl ((hpre d' id).2 (.inl hmem))⟩
    · exact .inr ⟨d', hd', .inr hmem⟩

/-! ### Continuations -/

/-- A continuation serves the next chunk of its run. -/
theorem continueSeq (h : PrefillInv L (seqId :: extra) s₀ g st) (hd : d < st.sched.dp)
    (htracked : ∀ a, st.sched.seqTable seqId = some a → Tracked g seqId a) :
    PrefillInv L extra s₀ g (PrefillState.continueSeq d st seqId) := by
  obtain ⟨a, ha, -⟩ := exists_of_unfinished h.one.head_live.1
  unfold PrefillState.continueSeq
  rw [ha]
  dsimp only
  split
  · exact h.pushPrefilling hd htracked
  case isFalse hpos =>
    generalize hnew : max (min (promptTarget a - a.numTokens) (max st.sched.config.maxNumBatchedTokens 1
      - st.numTokens d (st.sched.groupOf a))) 0 = newTokens at hpos
    generalize st.sched.dispatchForMaster (st.sched.groupOf a) (a.numTokens + newTokens) = dispatch
    -- the chunk is not empty, so the target was not reached and the run is open
    have hlt : a.numTokens < promptTarget a := by omega
    obtain ⟨hprompt, run, hrun, hcovered, hat⟩ := htracked a ha hlt
    have hsound := h.sound seqId a ha
    have hidle : st.sched.Idle seqId := h.one.idle (by rw [List.count_cons_self]; omega)
    have hf : Frame (fun x y => y = x.continueWith newTokens dispatch) seqId st.sched
        (st.sched.updateSeq seqId (fun seq => seq.continueWith newTokens dispatch)) :=
          Frame.of_updateSeq _ _ fun _ => rfl
    have hu : ∀ id, (st.sched.updateSeq seqId (fun seq => seq.continueWith newTokens dispatch)).unfinished id
        = st.sched.unfinished id :=
      unfinished_congr (R := fun x y => y.status = x.status) (fun _ _ hab => hab)
        ((hf.mono fun _ _ hxy => by rw [hxy]; rfl).table fun _ => rfl)
    have h₁ : PrefillInv L (seqId :: extra) s₀ g
        (st.withSched (st.sched.updateSeq seqId (fun seq => seq.continueWith newTokens dispatch))) := by
      refine h.entry hidle (h.toAdmitInv.congr hf.toSameQueues fun id _ => hu id) hf ?_
      rintro x _ hx rfl hx'
      rw [ha] at hx
      cases hx
      refine ⟨hx'.seqId, hx'.target, fun hne => ?_⟩
      have := hx'.host hne
      omega
    have hentry : (st.sched.updateSeq seqId (fun seq => seq.continueWith newTokens dispatch)).seqTable seqId =
        some (a.continueWith newTokens dispatch) := by simp [updateSeq, ha]
    refine h₁.join _ _ hd hentry ⟨⟨?_, ?_, ?_, hprompt, hsound.prompt_le⟩, fun _ =>
      ⟨hlt, run, hrun, hcovered, hat⟩⟩
    · have := hcovered.nonneg.trans hcovered.started
      rw [hat.numTokens] at this
      exact this
    · change a.numTokens ≤ a.numTokens + newTokens
      omega
    · change a.numTokens + newTokens ≤ promptTarget a
      omega

/-- The other sequences are as they were. -/
theorem continueSeq_others (st : PrefillState) (d seqId : ℕ) {id : ℕ} (hid : id ≠ seqId) :
    (PrefillState.continueSeq d st seqId).sched.seqTable id = st.sched.seqTable id := by
  unfold PrefillState.continueSeq
  split
  · rfl
  · dsimp only
    split
    · rfl
    · change Function.update _ _ _ id = _
      rw [Function.update_of_ne hid]
      exact Function.update_of_ne hid _ _

theorem continueSeqs (ids : List ℕ) (h : PrefillInv L (ids ++ extra) s₀ g st) (hd : d < st.sched.dp)
    (htracked : ∀ id ∈ ids, ∀ a, st.sched.seqTable id = some a → Tracked g id a) :
    PrefillInv L extra s₀ g (ids.foldl (PrefillState.continueSeq d) st) := by
  induction ids generalizing st with
  | nil => exact h
  | cons seqId ids ih =>
    have hnot : seqId ∉ ids := by
      have hzero := (show OneQueue L (seqId :: (ids ++ extra)) st.sched from h.one).head_live.2.2
      exact fun hmem => List.count_eq_zero.1 hzero (List.mem_append_left _ hmem)
    refine ih (continueSeq h hd (htracked seqId List.mem_cons_self)) ?_ fun id hid a ha => ?_
    · unfold Scheduler.dp at *
      rwa [config_continueSeq]
    · rw [continueSeq_others st d seqId fun heq => hnot (heq ▸ hid)] at ha
      exact htracked id (List.mem_cons_of_mem _ hid) a ha

theorem continueRank (h : PrefillInv L [] s₀ g st) (hd : d < st.sched.dp) :
    PrefillInv L [] s₀ g (st.continueRank d) := by
  have htake : ∀ d', (st.takePrefilling d).sched.prefilling d' = if d' = d then [] else st.sched.prefilling d' := by
    intro d'
    change Function.update st.sched.prefilling d [] d' = _
    by_cases hdd : d' = d
    · subst hdd
      simp
    · simp [hdd]
  have hone : OneQueue L (st.sched.prefilling d ++ []) (st.takePrefilling d).sched := by
    refine h.one.move (fun id => ?_) fun _ _ => rfl
    have hq := queueCount_setPrefilling hd [] id
    rw [List.append_nil]
    simpa [takePrefilling, withSched] using hq
  unfold PrefillState.continueRank
  refine continueSeqs _ ⟨⟨hone, h.dummies, h.nodup, h.running⟩, h.sound, fun d' hd' id hid a ha => ?_, h.served,
    fun id hid => ?_⟩ hd fun id hid a ha => h.queued d hd id (.inr hid) a ha
  · refine h.queued d' hd' id (hid.imp_right fun hmem => ?_) a ha
    rw [htake] at hmem
    split at hmem
    · cases hmem
    · exact hmem
  · rcases h.continued id hid with hmem | ⟨d', hd', hmem | hmem⟩
    · cases hmem
    · by_cases hdd : d' = d
      · subst hdd
        exact .inl (List.mem_append_left _ hmem)
      · refine .inr ⟨d', hd', .inl ?_⟩
        rw [htake, if_neg hdd]
        exact hmem
    · exact .inr ⟨d', hd', .inr hmem⟩

theorem continueAll (h : PrefillInv L [] s₀ g st) : PrefillInv L [] s₀ g st.continueAll := by
  have hfold : ∀ (ranks : List ℕ) (st' : PrefillState), st'.sched.config = st.sched.config →
      (∀ d ∈ ranks, d < st.sched.dp) → PrefillInv L [] s₀ g st' →
        PrefillInv L [] s₀ g (ranks.foldl PrefillState.continueRank st') := by
    intro ranks
    induction ranks with
    | nil => intro st' _ _ h'; exact h'
    | cons d ranks ih =>
      intro st' hc hlt h'
      refine ih _ ((config_continueRank d st').trans hc) (fun d' hd' => hlt d' (List.mem_cons_of_mem _ hd')) ?_
      refine h'.continueRank ?_
      have := hlt d List.mem_cons_self
      unfold Scheduler.dp at *
      rwa [hc]
  exact hfold _ st rfl (fun d hd => List.mem_range.1 hd) h

/-! ### Admissions -/

/-- A waiting sequence is not in the middle of a chunked prefill. -/
theorem not_isPrefilling (h : PrefillInv L [] s₀ g st) (hq : seqId ∈ st.queue) :
    s₀.isPrefilling seqId = false := by
  by_contra hcont
  have hidle := (h.one.idle_of_mem_queue hq).1
  rcases h.continued seqId (by simpa using hcont) with hmem | ⟨d, hd, hmem | hmem⟩
  · cases hmem
  · exact (hidle d hd).2 hmem
  · exact (hidle d hd).1 (h.running d seqId hmem)

theorem popQueue (h : PrefillInv L extra s₀ g st) (hhead : st.queue.head? = some seqId) :
    PrefillInv L (seqId :: extra) s₀ g st.popQueue := by
  have hdp : st.popQueue.sched.dp = st.sched.dp := congrArg SchedulerConfig.dp (config_popQueue st)
  refine ⟨h.toAdmitInv.popQueue hhead, h.sound.congr (seqTable_popQueue st), fun d hd id hid a ha => ?_,
    fun d hd id hid => ?_, fun id hid => ?_⟩
  · rw [running_popQueue, prefilling_popQueue] at hid
    rw [seqTable_popQueue] at ha
    exact h.queued d (hdp ▸ hd) id hid a ha
  · rw [seqTable_popQueue]
    exact h.served d (hdp ▸ hd) id hid
  · rw [hdp, prefilling_popQueue]
    exact (h.continued id hid).imp_left fun hmem => List.mem_cons_of_mem _ hmem

/-- A restored sequence runs, outside the result. -/
theorem placeRestored (h : PrefillInv L [] s₀ g st) (hd : d < st.sched.dp) (hhead : st.queue.head? = some seqId)
    (htracked : ∀ a, st.sched.seqTable seqId = some a → Tracked g seqId a) :
    PrefillInv L [] s₀ g (st.placeRestored d seqId) := by
  have hnot := h.not_isPrefilling (List.mem_of_mem_head? hhead)
  have hdp : st.popQueue.sched.dp = st.sched.dp := congrArg SchedulerConfig.dp (config_popQueue st)
  have h₁ := h.popQueue hhead
  have h₂ : PrefillInv L [] s₀ g (st.popQueue.withSched (st.popQueue.sched.pushRunning d seqId)) := by
    refine ⟨⟨h₁.one.requeue (queueCount_pushRunning (hdp.symm ▸ hd) seqId) fun _ => rfl,
        h₁.dummies, h₁.nodup,
      fun d' id hid => mem_pushRunning.2 (.inl (h₁.running d' id hid))⟩, h₁.sound, fun d' hd' id hid a ha => ?_,
      h₁.served, fun id hid => ?_⟩
    · by_cases hne : id = seqId
      · subst hne
        exact htracked a (seqTable_popQueue st ▸ ha)
      · refine h₁.queued d' hd' id (hid.imp_left fun ⟨hmem, hnot⟩ => ⟨?_, hnot⟩) a ha
        exact (mem_pushRunning.1 hmem).resolve_right fun heq => hne heq.2
    · rcases h₁.continued id hid with hmem | hmem
      · rw [List.mem_singleton.1 hmem, hnot] at hid
        cases hid
      · exact .inr hmem
  exact h₂.cache _

/-- An admitted sequence runs and is in the result. -/
theorem placeAdmitted {a : Sequence} (newTokens : ℤ) (h : PrefillInv L [] s₀ g st) (hd : d < st.sched.dp)
    (hhead : st.queue.head? = some seqId) (ha : st.sched.seqTable seqId = some a) (hchunk : a.Chunk) :
    PrefillInv L [] s₀ g (st.placeAdmitted d seqId newTokens) := by
  have hnot := h.not_isPrefilling (List.mem_of_mem_head? hhead)
  have hdp : st.popQueue.sched.dp = st.sched.dp := congrArg SchedulerConfig.dp (config_popQueue st)
  have h₂ := (h.popQueue hhead).join (st.sched.groupOfId seqId) newTokens (hdp.symm ▸ hd)
    ((congrFun (seqTable_popQueue st) seqId).trans ha) ⟨hchunk, fun hcont => by rw [hnot] at hcont; cases hcont⟩
  exact h₂.cache _

/-- A sequence of `running` that is not in the result is put back into `waiting`. -/
theorem preempted {s' : Scheduler} {victim : ℕ} (h : PrefillInv L [] s₀ g st) (hp : Preempted d victim st.sched s')
    (hinv : AdmitInv L [] (st.withSched s')) : PrefillInv L [] s₀ g (st.withSched s') := by
  have hdp : s'.dp = st.sched.dp := congrArg SchedulerConfig.dp hp.config
  have hidle : s'.Idle victim := by
    refine hinv.one.idle ?_
    have hmem : victim ∈ s'.waiting := by
      rcases hp.waiting with hw | hw <;> rw [hw] <;> simp
    have := List.count_pos_iff.2 hmem
    change 0 < s'.waiting.count victim + _ + _
    omega
  have hrun : ∀ d' id, id ∈ s'.running d' → id ∈ st.sched.running d' := fun d' id hid => by
    rw [hp.running] at hid
    exact (mem_dropRunning.1 hid).1
  refine ⟨hinv, h.sound.preempted hp, fun d' hd' id hid a ha => ?_, fun d' hd' id hid => ?_, fun id hid => ?_⟩
  · have hne : id ≠ victim := by
      rintro rfl
      rcases hid with hid | hid
      · exact (hidle d' hd').1 hid.1
      · exact (hidle d' hd').2 hid
    refine h.queued d' (hdp ▸ hd') id (hid.imp (fun ⟨hmem, hnot⟩ => ⟨hrun d' id hmem, hnot⟩) fun hmem => ?_) a
      (hp.others id hne ▸ ha)
    exact hp.prefilling ▸ hmem
  · have hne : id ≠ victim := fun heq => (hidle d' hd').1 (heq ▸ hinv.running d' id hid)
    obtain ⟨a, ha, hserved⟩ := h.served d' (hdp ▸ hd') id hid
    exact ⟨a, (hp.others id hne).trans ha, hserved⟩
  · refine (h.continued id hid).imp_right fun ⟨d', hd', hmem⟩ => ⟨d', hdp.symm ▸ hd', ?_⟩
    change id ∈ s'.prefilling d' ∨ _
    rwa [hp.prefilling]

end PrefillInv

/-! ## Steps of the loop -/

section step

variable [Xxh3]

/-- The prefix cache answers with a number of tokens. -/
theorem Scheduler.admissionCached_nonneg {s : Scheduler} {seqId d master : ℕ} {seq : Sequence}
    (hmode : s.config.mode ≠ .decode) (hseq : 0 ≤ seq.numCachedTokens) :
    0 ≤ (s.admissionCached seqId seq d master).1 := by
  unfold admissionCached
  split
  · unfold cacheCachedTokensForPrefix CacheState.cachedTokensForPrefix
    dsimp only
    have hmul : 0 ≤ ((CacheState.matchedLoop (s.flatIdx d master) seq.tokenIds s.config.blockSize
        (s.blocksNeededForTokens (s.fullLen seq)) 0 (-1) s.cache).1 : ℤ) * s.config.blockSize :=
      Int.mul_nonneg (Int.natCast_nonneg _) (Int.natCast_nonneg _)
    split <;> omega
  · simpa [hmode] using hseq

/-- The entry of an admitted sequence that counts no generated token below its target. -/
theorem PrefillState.tryOn_some_chunk {st : PrefillState} {seqId d : ℕ} {newTokens : ℤ}
    {s' : Scheduler} {seq : Sequence}
    (hmode : st.sched.config.mode ≠ .decode) (h : st.tryOn seqId d = (.ok (some newTokens), s'))
    (hseq : st.sched.seqTable seqId = some seq) (hsound : seq.Sound seqId)
    (hcheck : seq.numCheckpointedTokens ≤ seq.numPromptTokens) (hcached : 0 ≤ seq.numCachedTokens) :
    ∃ a, s'.seqTable seqId = some a ∧ seq.KeepsRequest a ∧ a.Chunk := by
  have hcases := tryAllocatePrefill_cases h
  generalize hr : (some newTokens : Option ℤ) = r at hcases
  cases hcases with
  | refused => cases hr
  | preempted => cases hr
  | @admitted adm s₁ s₂ _ hprep hres hfin =>
    obtain ⟨seq', hprepared, -⟩ := prepareAdmission_some hprep
    obtain rfl : seq = seq' := Option.some.inj (hseq.symm.trans hprepared.entry)
    obtain ⟨a, ha, z, hrec, hbegin, -⟩ := (TryCase.admitted_frame hprep hres hfin).entry seq hseq
    have hkeep := hrec.keepsRequest.trans hbegin.toKeepsRequest
    obtain ⟨hnum, hoffset⟩ := hbegin.prefill hmode
    have hc : 0 ≤ adm.cached := by
      rw [hprepared.cached]
      exact admissionCached_nonneg hmode hcached
    have hfull : adm.fullLen = promptTarget seq := by
      rw [hprepared.fullLen, fullLen, if_neg hmode]
    have hnew := hprepared.newTokens
    rw [newPrefillTokens, if_neg hmode, hfull] at hnew
    have hpos := hprepared.pos
    have htarget : promptTarget a = promptTarget seq := by
      unfold promptTarget
      rw [hkeep.numPromptTokens, hkeep.numCheckpointedTokens]
    refine ⟨a, ha, hkeep, ⟨by omega, by omega, by omega, ?_, ?_⟩⟩
    · rw [htarget, hkeep.numPromptTokens]
      unfold promptTarget
      omega
    · rw [hkeep.numPromptTokens, hkeep.tokenIds]
      exact hsound.prompt_le

variable {L : Finset ℕ} {s₀ : Scheduler} {g : Prefills} {st st' : PrefillState}

omit [Xxh3] in
theorem Sequence.noHost {s : Scheduler} {seqId : ℕ} {a : Sequence} (h : s.cacheSeqHasHostBlocks seqId = false)
    (ha : s.seqTable seqId = some a) : a.hostBlockTable = [] := by
  unfold cacheSeqHasHostBlocks at h
  rw [ha] at h
  simpa using h

theorem PrefillInv.step (h : PrefillInv L [] s₀ g st) (hmode : st.sched.config.mode ≠ .decode)
    (hstep : AdmitStep coverTest st st') : PrefillInv L [] s₀ g st' := by
  have hinv : AdmitInv L [] st' := h.toAdmitInv.step (hstep.mono fun st seqId d ranks hW =>
    (Bool.and_eq_true _ _ ▸ hW : queueTest st seqId d ranks = true ∧ freshTarget st seqId d ranks = true).1)
  cases hstep with
  | @routed seqId hhead =>
    have hq := List.mem_of_mem_head? hhead
    have hsame := (routeCandidates_frame st.sched seqId seqId).toSameQueues
    have ht := routeCandidates_seqTable st.sched seqId
    have hf : Frame (fun a b => b = a) seqId st.sched (st.sched.routeCandidates seqId).2 :=
      { hsame with
        others := fun id _ => by rw [ht]
        missing := fun hn => by rw [ht]; exact hn
        entry := fun a ha => ⟨a, by rw [ht]; exact ha, rfl⟩ }
    exact h.entry (h.one.idle_of_mem_queue hq).1 hinv hf fun a b _ hab ha => hab ▸ ha
  | @tried seqId d ranks s' hmem hrank hhost htest htry =>
    have hidle := (h.one.idle_of_mem_queue hmem).1
    have hcases := tryAllocatePrefill_cases htry
    generalize hr : (none : Option ℤ) = r at hcases
    cases hcases with
    | refused hprep =>
      have hf := prepareAdmission_frame st.sched seqId d (st.numSeqs d) (st.numTokens d)
      rw [hprep] at hf
      exact h.entry hidle hinv hf fun a b _ hab ha => ha.recordsCached hab
    | @preempted a s₁ s₂ e victim hprep hres hchosen =>
      have hlive := (h.one.live_of_pos (Nat.add_pos_left (queueCount_pos_of_mem_queue hmem) _)).2
      have hf := TryCase.cancelled_frame hprep hres
      have hcancel : AdmitInv L [] (st.withSched (s₂.cancelAdmission seqId)) :=
        h.toAdmitInv.congr hf.toSameQueues fun id _ =>
          hf.unfinished (fun _ _ hab => by rw [hab.2]; decide) hlive id
      have h₁ := h.entry hidle hcancel hf fun a b ha hab hsound =>
        hsound.keepsRequest hab.1 (Sequence.noHost hhost ha)
      exact h₁.preempted (preemptImpl_spec (s₂.cancelAdmission seqId) d victim) hinv
    | admitted => cases hr
  | @restored seqId d s' hhead hrank hhost hrestore =>
    have hf := cacheTryRestoreHostBlocks_true hrestore
    obtain ⟨hinv₁, hhead₁⟩ := h.toAdmitInv.restatus (fun _ _ hab => by rw [hab.status]; decide) hf hhead
    have h₁ := h.entry (h.one.idle_of_mem_queue (List.mem_of_mem_head? hhead)).1 hinv₁ hf
      fun a b _ hab ha => ha.restores hab
    refine h₁.placeRestored (hf.config ▸ hrank : d < s'.config.dp) hhead₁ fun b hb hlt => ?_
    -- a sequence with a host copy has reached its target
    cases ha : st.sched.seqTable seqId with
    | none =>
      unfold cacheSeqHasHostBlocks at hhost
      rw [ha] at hhost
      cases hhost
    | some a =>
      obtain ⟨b', hb', hab⟩ := hf.entry a ha
      rw [show (st.withSched s').sched.seqTable seqId = s'.seqTable seqId from rfl, hb'] at hb
      cases hb
      have hne : a.hostBlockTable ≠ [] := by
        unfold cacheSeqHasHostBlocks at hhost
        rw [ha] at hhost
        simpa using hhost
      have := (h₁.sound seqId _ hb').host (hab.hostBlockTable ▸ hne)
      omega
  | @admitted seqId d ranks newTokens s' hhead hrank hhost htest htry =>
    have hf := AdmitInv.tryOn_some_frame htry
    obtain ⟨hinv₁, hhead₁⟩ := h.toAdmitInv.restatus (fun _ _ hb => by rw [hb]; decide) hf hhead
    have hpos := queueCount_pos_of_mem_queue (List.mem_of_mem_head? hhead)
    obtain ⟨seq, hseq, -⟩ := exists_of_unfinished (h.one.live_of_pos (Nat.add_pos_left hpos _)).2
    have hsound := h.sound seqId seq hseq
    have hfresh :=
      (Bool.and_eq_true _ _ ▸ htest : queueTest st seqId d ranks = true ∧ freshTarget st seqId d ranks = true).2
    unfold freshTarget at hfresh
    rw [htry, hseq] at hfresh
    simp only [Option.map_some, Option.getD_some, Bool.and_eq_true, decide_eq_true_eq] at hfresh
    obtain ⟨a, ha, hkeep, hchunk⟩ := tryOn_some_chunk hmode htry hseq hsound hfresh.1 hfresh.2
    have hf' : Frame (fun _ b => b = a) seqId st.sched s' :=
      { hf with entry := fun x hx => ⟨a, ha, rfl⟩ }
    have h₁ := h.entry (h.one.idle_of_mem_queue (List.mem_of_mem_head? hhead)).1 hinv₁ hf' (by
      rintro x _ hx rfl hx'
      rw [hseq] at hx
      cases hx
      exact hx'.keepsRequest hkeep (Sequence.noHost hhost hseq))
    exact h₁.placeAdmitted newTokens (hf.config ▸ hrank : d < s'.config.dp) hhead₁ ha hchunk

end step

end NanoEngine
