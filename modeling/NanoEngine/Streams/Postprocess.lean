import NanoEngine.Scheduler.Postprocess
import NanoEngine.Streams.Tokens

/-!
# NanoEngine.Streams.Postprocess — what postprocessing appends and records

* `rowOf`: the row of tokens that postprocessing reads for an id.
* `Visited row a seqId s s'`: the entry `a` of `seqId` grew by what `s'` records for it.
* `postprocessImpl_visited`: after postprocessing every id that is listed at most once is in this state.
-/

namespace NanoEngine

namespace Scheduler

/-- The row of an id within its group. -/
def rowIn (seqId : ℕ) : List ℕ → List (List ℤ) → Option (List ℤ)
  | [], _ => none
  | id :: ids, rows => if id = seqId then rows.head? else rowIn seqId ids rows.tail

/-- The row of an id: that of the first group that lists it. -/
def rowOf (seqId : ℕ) : List (List ℕ) → List (List (List ℤ)) → Option (List ℤ)
  | [], _ => none
  | ids :: groups, rows =>
    if seqId ∈ ids then rows.head?.bind (rowIn seqId ids) else rowOf seqId groups rows.tail

/-- The sequence gets a token: its target is reached, a token is there and may be appended. -/
def getsToken (s : Scheduler) (seq : Sequence) (row : Option (List ℤ)) : Bool :=
  decide (promptTarget seq ≤ seq.numTokens) && s.canAppend seq && decide (row.getD [] ≠ [])

/-- Sequence `seqId` with entry `a` has been postprocessed with `row`: its tokens grew by what is recorded for it. -/
structure Visited (row : Option (List ℤ)) (a : Sequence) (seqId : ℕ) (s s' : Scheduler) : Prop where
  entry : ∃ b, s'.seqTable seqId = some b ∧ b.tokenIds = a.tokenIds ++ (s'.lastStepTokenIds seqId).getD [] ∧
    ((s'.lastStepTokenIds seqId).getD [] = [] → b.numTokens = a.numTokens) ∧
    ((s'.lastStepTokenIds seqId).getD [] ≠ [] → b.status ≠ .toBeMigrated)
  token : s.getsToken a row = true → (s'.lastStepTokenIds seqId).getD [] ≠ []

variable {s s' : Scheduler} {seqId d : ℕ} {a : Sequence}

/-- Nothing was done for the sequence, and there was nothing to do. -/
theorem Visited.of_same {row : Option (List ℤ)} (ha : s.seqTable seqId = some a)
    (hl : s.lastStepTokenIds seqId = none)
    (ht : s'.seqTable seqId = s.seqTable seqId) (hl' : s'.lastStepTokenIds seqId = s.lastStepTokenIds seqId)
    (hrow : row.getD [] = []) : Visited row a seqId s s' := by
  refine ⟨⟨a, ht.trans ha, ?_, fun _ => rfl, fun hne => ?_⟩, fun hgets => ?_⟩
  · rw [hl', hl, Option.getD_none, List.append_nil]
  · rw [hl', hl] at hne
    exact absurd rfl hne
  · simp [getsToken, hrow] at hgets

/-- Later visits of other sequences change nothing. -/
theorem Visited.others {s'' : Scheduler} {row : Option (List ℤ)} (h : Visited row a seqId s s')
    (ht : s''.seqTable seqId = s'.seqTable seqId) (hl : s''.lastStepTokenIds seqId = s'.lastStepTokenIds seqId) :
    Visited row a seqId s s'' := by
  obtain ⟨hentry, htoken⟩ := h
  refine ⟨?_, ?_⟩
  · rwa [ht, hl]
  · rwa [hl]

/-- Earlier visits of other sequences did not matter. -/
theorem Visited.before {s₀ : Scheduler} {row : Option (List ℤ)} (h : Visited row a seqId s s')
    (hc : s.config = s₀.config) : Visited row a seqId s₀ s' := by
  refine ⟨h.entry, fun hgets => h.token ?_⟩
  unfold getsToken canAppend at *
  rwa [hc]

variable [Xxh3]

/-- Placing a sequence keeps its tokens and what is recorded for it. -/
theorem postprocessPlace_entry (s : Scheduler) (d : ℕ) (seq : Sequence) (hitTerminal : Bool)
    (hmode : s.config.mode ≠ .prefill) (ha : s.seqTable seqId = some a) :
    (s.postprocessPlace d seqId seq hitTerminal).lastStepTokenIds = s.lastStepTokenIds ∧
      ∃ b, (s.postprocessPlace d seqId seq hitTerminal).seqTable seqId = some b ∧ b.tokenIds = a.tokenIds ∧
        b.numTokens = a.numTokens ∧ b.status ≠ .toBeMigrated := by
  unfold postprocessPlace
  split
  · refine ⟨rfl, { a with status := .finished }, ?_, rfl, rfl, by simp⟩
    simp [releaseSeq, setCache, updateSeq, ha]
  · have hf := (cacheEnsureBlocksForSeq_frame s seqId false).cacheFrame
    obtain ⟨b, hb, hab⟩ := hf.entry a ha
    refine ⟨hf.lastStepTokenIds, { b with status := .running }, ?_, hab.tokenIds, hab.numTokens, by simp⟩
    simp [pushRunning, updateSeq, hb]

/-- One visit of a sequence for which nothing is recorded yet. -/
theorem postprocessSeq_visited (row : Option (List ℤ)) (logprobs : List ℚ) (hmode : s.config.mode ≠ .prefill)
    (hdummy : seqId ∉ s.dummySeqIds) (ha : s.seqTable seqId = some a) (hl : s.lastStepTokenIds seqId = none) :
    Visited row a seqId s (s.postprocessSeq d seqId row logprobs) := by
  unfold postprocessSeq
  rw [if_neg hdummy]
  cases row with
  | none => exact .of_same ha hl rfl rfl rfl
  | some tokens =>
    dsimp only
    rw [ha]
    dsimp only
    split
    case isTrue hlt =>
      -- a chunk was computed: the status changes, no token is appended
      have hf : Frame (fun x y => y.tokenIds = x.tokenIds ∧ y.numTokens = x.numTokens) seqId
          (s.commitHbmBlocks seqId a.numTokens) ((s.commitHbmBlocks seqId a.numTokens).updateSeq seqId
            (fun seq => { seq with status := .prefilling })) := Frame.of_updateSeq _ _ fun _ => ⟨rfl, rfl⟩
      have hcommit := commitHbmBlocks_frame s seqId a.numTokens
      have htable := commitHbmBlocks_seqTable s seqId a.numTokens
      obtain ⟨b, hb, htok, hnum⟩ := hf.entry a (by rw [htable]; exact ha)
      have hlast : ((s.commitHbmBlocks seqId a.numTokens).updateSeq seqId
          (fun seq => { seq with status := .prefilling })).lastStepTokenIds seqId = none := by
        rw [hf.lastStepTokenIds, hcommit.lastStepTokenIds, hl]
      refine ⟨⟨b, hb, ?_, fun _ => hnum, fun hne => ?_⟩, fun hgets => ?_⟩
      · rw [htok]
        simp [pushPrefilling, hlast]
      · simp [pushPrefilling, hlast] at hne
      · unfold getsToken at hgets
        simp only [Bool.and_eq_true, decide_eq_true_eq] at hgets
        omega
    case isFalse hge =>
      have hspec := postprocessAppend_spec s seqId a tokens logprobs ha
      generalize hstart : (if a.status = .prefilling then { a with status := SequenceStatus.running } else a) =
        start at hspec
      have hsame : start.tokenIds = a.tokenIds ∧ start.numTokens = a.numTokens ∧
        s.canAppend start = s.canAppend a := by
        rw [← hstart]
        split <;> exact ⟨rfl, rfl, rfl⟩
      have happ := appendTokens_appends s start tokens logprobs
      have hseq' := hspec.entry
      rw [hstart] at hseq'
      have hlast := hspec.last
      rw [hstart] at hlast
      obtain ⟨hkeep, b, hb, htok, hnum, hstatus⟩ := postprocessPlace_entry
        (s.postprocessAppend seqId a tokens logprobs).2 d (s.postprocessAppend seqId a tokens logprobs).1.1
        (s.postprocessAppend seqId a tokens logprobs).1.2 (by rw [hspec.config]; exact hmode)
        (by rw [hspec.table, Function.update_self])
      have hrec : ((s.postprocessAppend seqId a tokens logprobs).2.postprocessPlace d seqId
          (s.postprocessAppend seqId a tokens logprobs).1.1
            (s.postprocessAppend seqId a tokens logprobs).1.2).lastStepTokenIds
            seqId = some (s.appendTokens start tokens logprobs).2.1 := by
        rw [hkeep, hlast, Function.update_self]
      refine ⟨⟨b, hb, ?_, fun hnil => ?_, fun _ => hstatus⟩, fun hgets hnil => ?_⟩
      · rw [hrec, Option.getD_some, htok, hseq', happ.tokenIds, hsame.1]
      · rw [hrec, Option.getD_some] at hnil
        rw [hnum, hseq', happ.numTokens, if_pos hnil, hsame.2.1]
      · rw [hrec, Option.getD_some, appendTokens_eq_nil_iff, hsame.2.2] at hnil
        unfold getsToken at hgets
        simp only [Bool.and_eq_true, decide_eq_true_eq, Option.getD_some] at hgets
        rcases hnil with hnil | hnil
        · exact hgets.2 hnil
        · rw [hnil] at hgets
          cases hgets.1.2

/-! ## The loops -/

/-- A group that does not list the id leaves its entry and its record alone. -/
theorem postprocessGroup_others (ids : List ℕ) (rows : List (List ℤ)) (logprobs : List (List ℚ)) (s : Scheduler)
    (hid : seqId ∉ ids) :
    (postprocessGroup d ids rows logprobs s).config = s.config ∧
      (postprocessGroup d ids rows logprobs s).dummySeqIds = s.dummySeqIds ∧
      (postprocessGroup d ids rows logprobs s).seqTable seqId = s.seqTable seqId ∧
      (postprocessGroup d ids rows logprobs s).lastStepTokenIds seqId = s.lastStepTokenIds seqId := by
  induction ids generalizing rows logprobs s with
  | nil => exact ⟨rfl, rfl, rfl, rfl⟩
  | cons id ids ih =>
    rw [List.mem_cons, not_or] at hid
    have hf := postprocessSeq_frame s d id rows.head? (logprobs.head?.getD [])
    obtain ⟨h₁, h₂, h₃, h₄⟩ :=
      ih rows.tail logprobs.tail (s.postprocessSeq d id rows.head? (logprobs.head?.getD [])) hid.2
    exact ⟨h₁.trans hf.config, h₂.trans hf.dummySeqIds, h₃.trans (hf.others seqId hid.1),
      h₄.trans (hf.lastOthers seqId hid.1)⟩

theorem postprocessGroup_visited (ids : List ℕ) (rows : List (List ℤ)) (logprobs : List (List ℚ)) {s : Scheduler}
    (hmode : s.config.mode ≠ .prefill) (hdummy : seqId ∉ s.dummySeqIds) (ha : s.seqTable seqId = some a)
    (hl : s.lastStepTokenIds seqId = none) (hmem : seqId ∈ ids) (hcount : ids.count seqId ≤ 1) :
    Visited (rowIn seqId ids rows) a seqId s (postprocessGroup d ids rows logprobs s) := by
  induction ids generalizing rows logprobs s with
  | nil => cases hmem
  | cons id ids ih =>
    unfold postprocessGroup rowIn
    by_cases hid : id = seqId
    · subst hid
      rw [if_pos rfl]
      rw [List.count_cons_self] at hcount
      have hnot : id ∉ ids := List.count_eq_zero.1 (by omega)
      obtain ⟨-, -, ht, hl'⟩ := postprocessGroup_others (d := d) ids rows.tail logprobs.tail
        (s.postprocessSeq d id rows.head? (logprobs.head?.getD [])) hnot
      exact (postprocessSeq_visited rows.head? _ hmode hdummy ha hl).others ht hl'
    · rw [if_neg hid]
      have hf := postprocessSeq_frame s d id rows.head? (logprobs.head?.getD [])
      rw [List.count_cons_of_ne (by simpa using hid)] at hcount
      refine (ih rows.tail logprobs.tail (by rwa [hf.config]) (by rwa [hf.dummySeqIds])
        ((hf.others seqId (Ne.symm hid)).trans ha) ((hf.lastOthers seqId (Ne.symm hid)).trans hl)
        ((List.mem_cons.1 hmem).resolve_left (Ne.symm hid)) hcount).before hf.config

/-- The groups after the one that lists the id. -/
theorem postprocessGroups_others (k : ℕ) (groups : List (List ℕ)) (rows : List (List (List ℤ)))
    (logprobs : List (List (List ℚ))) (s : Scheduler) (hid : seqId ∉ groups.flatten) :
    (postprocessGroups k groups rows logprobs s).seqTable seqId = s.seqTable seqId ∧
      (postprocessGroups k groups rows logprobs s).lastStepTokenIds seqId = s.lastStepTokenIds seqId := by
  induction groups generalizing k rows logprobs s with
  | nil => exact ⟨rfl, rfl⟩
  | cons ids groups ih =>
    rw [List.flatten_cons, List.mem_append, not_or] at hid
    unfold postprocessGroups
    cases rows with
    | nil => exact ih _ _ _ _ hid.2
    | cons row rows =>
      obtain ⟨-, -, ht, hl⟩ := postprocessGroup_others (d := k / s.group) ids row (logprobs.head?.getD []) s hid.1
      obtain ⟨ht', hl'⟩ := ih (k + 1) rows logprobs.tail
        (postprocessGroup (k / s.group) ids row (logprobs.head?.getD []) s) hid.2
      exact ⟨ht'.trans ht, hl'.trans hl⟩

theorem postprocessGroups_visited (k : ℕ) (groups : List (List ℕ)) (rows : List (List (List ℤ)))
    (logprobs : List (List (List ℚ))) {s : Scheduler} (hmode : s.config.mode ≠ .prefill)
    (hdummy : seqId ∉ s.dummySeqIds)
    (ha : s.seqTable seqId = some a) (hl : s.lastStepTokenIds seqId = none)
    (hcount : groups.flatten.count seqId ≤ 1) :
    Visited (rowOf seqId groups rows) a seqId s (postprocessGroups k groups rows logprobs s) := by
  induction groups generalizing k rows logprobs s with
  | nil => exact .of_same ha hl rfl rfl rfl
  | cons ids groups ih =>
    rw [List.flatten_cons, List.count_append] at hcount
    unfold postprocessGroups rowOf
    by_cases hmem : seqId ∈ ids
    · rw [if_pos hmem]
      have hpos := List.count_pos_iff.2 hmem
      have hnot : seqId ∉ groups.flatten := List.count_eq_zero.1 (by omega)
      cases rows with
      | nil =>
        obtain ⟨ht, hl'⟩ := postprocessGroups_others (k + 1) groups [] logprobs.tail s hnot
        exact .of_same ha hl ht hl' rfl
      | cons row rows =>
        obtain ⟨ht, hl'⟩ := postprocessGroups_others (k + 1) groups rows logprobs.tail
          (postprocessGroup (k / s.group) ids row (logprobs.head?.getD []) s) hnot
        exact (postprocessGroup_visited ids row _ hmode hdummy ha hl hmem (by omega)).others ht hl'
    · rw [if_neg hmem]
      cases rows with
      | nil => exact ih (k + 1) [] logprobs.tail hmode hdummy ha hl (by omega)
      | cons row rows =>
        obtain ⟨hc, hd, ht, hl'⟩ := postprocessGroup_others (d :=
          k / s.group) ids row (logprobs.head?.getD []) s hmem
        refine (ih (k + 1) rows logprobs.tail ?_ ?_ (ht.trans ha) (hl'.trans hl) (by omega)).before hc
        · rwa [hc]
        · rwa [hd]

/-- **Postprocessing appends to a sequence exactly what it records for it**, when the sequence is listed at most once.
-/
theorem postprocessImpl_visited (groups : List (List ℕ)) (rows : List (List (List ℤ)))
    (logprobs : List (List (List ℚ)))
    (hmode : s.config.mode ≠ .prefill) (hdummy : seqId ∉ s.dummySeqIds) (ha : s.seqTable seqId = some a)
    (hcount : groups.flatten.count seqId ≤ 1) :
    Visited (rowOf seqId groups rows) a seqId s (s.postprocessImpl groups rows logprobs) :=
  (postprocessGroups_visited 0 groups rows logprobs (s := { s with
    lastStepTokenIds := fun _ => none
    running := fun d => (s.running d).filter (fun id => decide (id ∉ scheduledIds s.group groups d)) })
    hmode hdummy ha rfl hcount).before rfl

theorem postprocessImpl_unlisted (groups : List (List ℕ)) (rows : List (List (List ℤ)))
    (logprobs : List (List (List ℚ))) (s : Scheduler) (hid : seqId ∉ groups.flatten) :
    (s.postprocessImpl groups rows logprobs).seqTable seqId = s.seqTable seqId ∧
      (s.postprocessImpl groups rows logprobs).lastStepTokenIds seqId = none :=
  postprocessGroups_others 0 groups rows logprobs _ hid

end Scheduler

end NanoEngine
