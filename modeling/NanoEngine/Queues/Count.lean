import NanoEngine.Lib.Counting
import NanoEngine.Engine.Ops

/-!
# NanoEngine.Queues.Count — how often an id is queued

`queueCount s id` counts the occurrences of `id` in `waiting`, `waiting_migration`, `running[*]`, `prefilling[*]` and
`to_be_migrated` together.  `OneQueue L extra s`: every unfinished id of `L` occurs once in the queues and the local
list `extra` together, every other id nowhere.
-/

namespace NanoEngine

open Counting

namespace Scheduler

def queueCount (s : Scheduler) (id : ℕ) : ℕ :=
  s.waiting.count id + s.waitingMigration.count id + totalCount s.dp s.running id + totalCount s.dp s.prefilling id
    + if (s.toBeMigrated id).isSome then 1 else 0

theorem queueCount_congr {s s' : Scheduler} (h : SameQueues s s') (id : ℕ) : queueCount s' id = queueCount s id := by
  unfold queueCount Scheduler.dp
  rw [h.config, h.waiting, h.waitingMigration, h.running, h.prefilling, h.toBeMigrated]

theorem queueCount_pushRunning {s : Scheduler} {d : ℕ} (hd : d < s.dp) (v id : ℕ) :
    queueCount (s.pushRunning d v) id = queueCount s id + [v].count id := by
  have h := totalCount_update hd s.running (s.running d ++ [v]) id
  rw [List.count_append] at h
  unfold queueCount pushRunning Scheduler.dp at *
  dsimp only at h ⊢
  omega

theorem queueCount_pushPrefilling {s : Scheduler} {d : ℕ} (hd : d < s.dp) (v id : ℕ) :
    queueCount (s.pushPrefilling d v) id = queueCount s id + [v].count id := by
  have h := totalCount_update hd s.prefilling (s.prefilling d ++ [v]) id
  rw [List.count_append] at h
  unfold queueCount pushPrefilling Scheduler.dp at *
  dsimp only at h ⊢
  omega

/-- Replacing the running queue of a rank. -/
theorem queueCount_setRunning {s : Scheduler} {d : ℕ} (hd : d < s.dp) (l : List ℕ) (id : ℕ) :
    queueCount { s with running := Function.update s.running d l } id + (s.running d).count id =
      queueCount s id + l.count id := by
  have h := totalCount_update hd s.running l id
  unfold queueCount Scheduler.dp at *
  dsimp only at h ⊢
  omega

/-- Replacing the prefilling queue of a rank. -/
theorem queueCount_setPrefilling {s : Scheduler} {d : ℕ} (hd : d < s.dp) (l : List ℕ) (id : ℕ) :
    queueCount { s with prefilling := Function.update s.prefilling d l } id + (s.prefilling d).count id =
      queueCount s id + l.count id := by
  have h := totalCount_update hd s.prefilling l id
  unfold queueCount Scheduler.dp at *
  dsimp only at h ⊢
  omega

/-- A running id is queued. -/
theorem count_running_le {s : Scheduler} {d : ℕ} (hd : d < s.dp) (id : ℕ) :
    (s.running d).count id ≤ queueCount s id := by
  have := count_le_totalCount hd s.running id
  unfold queueCount
  omega

theorem count_prefilling_le {s : Scheduler} {d : ℕ} (hd : d < s.dp) (id : ℕ) :
    (s.prefilling d).count id ≤ queueCount s id := by
  have := count_le_totalCount hd s.prefilling id
  unfold queueCount
  omega

/-- A preemption moves its victim out of the running queue of the rank and into `waiting`. -/
theorem queueCount_preempted {s s' : Scheduler} {d v : ℕ} (hd : d < s.dp) (h : Preempted d v s s') (id : ℕ) :
    queueCount s' id + (if id = v then (s.running d).count v else 0) = queueCount s id + [v].count id := by
  have hw : s'.waiting.count id = s.waiting.count id + [v].count id := by
    rcases h.waiting with hw | hw <;> rw [hw]
    · rw [count_cons_eq]
    · rw [List.count_append]
  have hr := totalCount_update hd s.running ((s.running d).filter (fun id => decide (id ≠ v))) id
  rw [count_filter_ne] at hr
  unfold queueCount Scheduler.dp
  rw [h.config, h.waitingMigration, h.running, h.prefilling, h.toBeMigrated, hw]
  unfold dropRunning Scheduler.dp at *
  dsimp only
  by_cases hid : id = v
  · subst hid
    simp only [if_true] at hr ⊢
    omega
  · simp only [hid, if_false] at hr ⊢
    omega

/-- A new sequence is entered and put at the end of the queue that admission reads. -/
structure Added (seq : Sequence) (s s' : Scheduler) : Prop where
  config : s'.config = s.config
  seqTable : s'.seqTable = Function.update s.seqTable seq.seqId (some seq)
  waiting : s'.waiting = if s.config.mode = .decode then s.waiting else s.waiting ++ [seq.seqId]
  waitingMigration : s'.waitingMigration =
    if s.config.mode = .decode then s.waitingMigration ++ [seq.seqId] else s.waitingMigration
  running : s'.running = s.running
  prefilling : s'.prefilling = s.prefilling
  toBeMigrated : s'.toBeMigrated = s.toBeMigrated
  dummySeqIds : s'.dummySeqIds = s.dummySeqIds
  lastStepTokenIds : s'.lastStepTokenIds = s.lastStepTokenIds
  cache : s'.cache = s.cache

theorem addSequence_spec (s : Scheduler) (seq : Sequence) : Added seq s (s.addSequence seq) := by
  by_cases hmode : s.config.mode = .decode <;> constructor <;> simp [addSequence, hmode]

theorem Added.queueCount {s s' : Scheduler} {seq : Sequence} (h : Added seq s s') (id : ℕ) :
    s'.queueCount id = s.queueCount id + [seq.seqId].count id := by
  unfold Scheduler.queueCount Scheduler.dp
  rw [h.config, h.waiting, h.waitingMigration, h.running, h.prefilling, h.toBeMigrated]
  split <;> simp only [List.count_append] <;> omega

/-- An abort takes the id out of all queues and changes nothing else of them. -/
structure Aborted (seqId : ℕ) (s s' : Scheduler) : Prop where
  config : s'.config = s.config
  seqTable : s'.seqTable = s.seqTable
  waiting : s'.waiting = s.waiting.filter (fun id => decide (id ≠ seqId))
  waitingMigration : s'.waitingMigration = s.waitingMigration.filter (fun id => decide (id ≠ seqId))
  running : ∀ d, s'.running d = (s.running d).filter (fun id => decide (id ≠ seqId))
  prefilling : ∀ d, s'.prefilling d = (s.prefilling d).filter (fun id => decide (id ≠ seqId))
  toBeMigrated : s'.toBeMigrated = Function.update s.toBeMigrated seqId none
  dummySeqIds : s'.dummySeqIds = s.dummySeqIds
  lastStepTokenIds : s'.lastStepTokenIds = s.lastStepTokenIds

theorem abortImpl_found {s : Scheduler} {seqId : ℕ} (h : (s.abortImpl seqId).1 = true) :
    Aborted seqId s (s.abortImpl seqId).2 := by
  unfold abortImpl at h ⊢
  split
  · exact ⟨rfl, rfl, rfl, rfl, fun _ => rfl, fun _ => rfl, rfl, rfl, rfl⟩
  case isFalse hnot => simp [hnot] at h

theorem abortImpl_not_found {s : Scheduler} {seqId : ℕ} (h : (s.abortImpl seqId).1 = false) :
    (s.abortImpl seqId).2 = s := by
  unfold abortImpl at h ⊢
  split
  case isTrue hfound => simp [hfound] at h
  · rfl

theorem Aborted.queueCount {s s' : Scheduler} {seqId : ℕ} (h : Aborted seqId s s') (id : ℕ) :
    s'.queueCount id = if id = seqId then 0 else s.queueCount id := by
  have hrun : s'.running = fun d => (s.running d).filter (fun id => decide (id ≠ seqId)) := funext h.running
  have hpre : s'.prefilling = fun d => (s.prefilling d).filter (fun id => decide (id ≠ seqId)) := funext h.prefilling
  unfold Scheduler.queueCount Scheduler.dp
  rw [h.config, h.waiting, h.waitingMigration, hrun, hpre, h.toBeMigrated, totalCount_filter, totalCount_filter,
    count_filter_ne, count_filter_ne]
  by_cases hid : id = seqId
  · subst hid
    simp
  · simp [hid]

/-- The release of a migrated sequence: it leaves `to_be_migrated` and is finished. -/
structure Freed (seqId : ℕ) (s s' : Scheduler) : Prop where
  config : s'.config = s.config
  waiting : s'.waiting = s.waiting
  waitingMigration : s'.waitingMigration = s.waitingMigration
  running : s'.running = s.running
  prefilling : s'.prefilling = s.prefilling
  toBeMigrated : s'.toBeMigrated = Function.update s.toBeMigrated seqId none
  dummySeqIds : s'.dummySeqIds = s.dummySeqIds
  lastStepTokenIds : s'.lastStepTokenIds = s.lastStepTokenIds
  seqTable : s'.seqTable = Function.update s.seqTable seqId
    ((s.seqTable seqId).map fun seq => { seq with status := .finished })

theorem freeToBeMigrated_spec {s : Scheduler} {seqId : ℕ} (h : (s.toBeMigrated seqId).isSome = true) :
    Freed seqId s (s.freeToBeMigratedIdsImpl [seqId]) := by
  unfold freeToBeMigratedIdsImpl
  rw [List.foldl_cons, List.foldl_nil]
  unfold freeToBeMigrated
  rw [if_pos h]
  exact ⟨rfl, rfl, rfl, rfl, rfl, rfl, rfl, rfl, rfl⟩

theorem Freed.queueCount {s s' : Scheduler} {seqId : ℕ} (h : Freed seqId s s')
    (hmig : (s.toBeMigrated seqId).isSome = true) (id : ℕ) :
    s'.queueCount id + [seqId].count id = s.queueCount id := by
  unfold Scheduler.queueCount Scheduler.dp
  rw [h.config, h.waiting, h.waitingMigration, h.running, h.prefilling, h.toBeMigrated]
  by_cases hid : id = seqId
  · subst hid
    simp [hmig]
  · have hsing : [seqId].count id = 0 := List.count_eq_zero.2 (by simpa using hid)
    simp [Function.update_of_ne hid, hsing]

end Scheduler

end NanoEngine
