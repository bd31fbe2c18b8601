import NanoEngine.Queues.Count

/-!
# NanoEngine.Queues.Invariant — every live sequence is in exactly one queue

* `OneQueue L extra s`: every unfinished id of `L` occurs once in the queues and the local list `extra` together,
  every other id nowhere.
* `victimFresh`: no try preempts a sequence that the same `schedule` call has already put into its result.
-/

namespace NanoEngine

open Counting Scheduler PrefillState

/-- Every unfinished id of `L` occurs once in the queues and `extra` together, every other id nowhere. -/
def OneQueue (L : Finset ℕ) (extra : List ℕ) (s : Scheduler) : Prop :=
  ∀ id, queueCount s id + extra.count id = if decide (id ∈ L) && s.unfinished id then 1 else 0

namespace OneQueue

variable {L : Finset ℕ} {extra extra' : List ℕ} {s s' : Scheduler} {seqId : ℕ}

theorem live_of_pos (h : OneQueue L extra s) {id : ℕ} (hpos : 0 < queueCount s id + extra.count id) :
    id ∈ L ∧ s.unfinished id = true := by
  rw [h id] at hpos
  by_contra hne
  rw [← decide_eq_true_iff (p := id ∈ L), ← Bool.and_eq_true] at hne
  rw [if_neg hne] at hpos
  omega

theorem le_one (h : OneQueue L extra s) (id : ℕ) : queueCount s id + extra.count id ≤ 1 := by
  rw [h id]
  split <;> omega

/-- Nothing is lost, doubled, finished or revived. -/
theorem move (h : OneQueue L extra s)
    (hq : ∀ id, queueCount s' id + extra'.count id = queueCount s id + extra.count id)
    (hu : ∀ id, id ∈ L → s'.unfinished id = s.unfinished id) : OneQueue L extra' s' := by
  intro id
  rw [hq id, h id]
  by_cases hid : id ∈ L
  · rw [hu id hid]
  · simp [hid]

/-- The head of the local list is known and unfinished. -/
theorem head_live (h : OneQueue L (seqId :: extra) s) :
    s.unfinished seqId = true ∧ queueCount s seqId = 0 ∧ extra.count seqId = 0 := by
  have hle := h.le_one seqId
  rw [List.count_cons_self] at hle
  refine ⟨(h.live_of_pos ?_).2, by omega, by omega⟩
  rw [List.count_cons_self]
  omega

/-- The head of the local list is put back into a queue. -/
theorem requeue (h : OneQueue L (seqId :: extra) s) (hq : ∀ id, queueCount s' id = queueCount s id + [seqId].count id)
    (hu : ∀ id, s'.unfinished id = s.unfinished id) : OneQueue L extra s' := by
  refine h.move (fun id => ?_) fun id _ => hu id
  rw [hq id, count_cons_eq seqId id extra]
  omega

/-- The head of the local list is finished. -/
theorem finish (h : OneQueue L (seqId :: extra) s) (hq : ∀ id, queueCount s' id = queueCount s id)
    (hfin : s'.unfinished seqId = false) (hu : ∀ id, id ≠ seqId → s'.unfinished id = s.unfinished id) :
    OneQueue L extra s' := by
  obtain ⟨-, hzero, hrest⟩ := h.head_live
  intro id
  by_cases hid : id = seqId
  · subst hid
    rw [hq, hzero, hrest, hfin]
    simp
  · have hone := h id
    rw [List.count_cons_of_ne (Ne.symm hid)] at hone
    rw [hq, hu id hid, hone]

end OneQueue

namespace Scheduler

variable {R : Sequence → Sequence → Prop} {seqId : ℕ} {s s' : Scheduler}

theorem unfinished_congr (hR : ∀ a b, R a b → b.status = a.status) (h : TableRel R s s') (id : ℕ) :
    s'.unfinished id = s.unfinished id := by
  unfold unfinished
  cases ha : s.seqTable id with
  | none => rw [h.missing id ha]
  | some a =>
    obtain ⟨b, hb, hab⟩ := h.entry id a ha
    rw [hb, Option.map_some, Option.map_some, hR a b hab]

/-- An unfinished sequence that is moved to another unfinished status stays unfinished, the others are untouched. -/
theorem Frame.unfinished (hR : ∀ a b, R a b → b.status ≠ .finished) (h : Frame R seqId s s')
    (hlive : s.unfinished seqId = true) (id : ℕ) : s'.unfinished id = s.unfinished id := by
  by_cases hid : id = seqId
  · subst hid
    rw [hlive]
    unfold Scheduler.unfinished at hlive ⊢
    cases ha : s.seqTable id with
    | none => rw [ha] at hlive; cases hlive
    | some a =>
      obtain ⟨b, hb, hab⟩ := h.entry a ha
      simp [hb, hR a b hab]
  · unfold Scheduler.unfinished
    rw [h.others id hid]

theorem Preempted.unfinished {d v : ℕ} (h : Preempted d v s s') (hlive : s.unfinished v = true) (id : ℕ) :
    s'.unfinished id = s.unfinished id := by
  by_cases hid : id = v
  · subst hid
    rw [hlive]
    unfold Scheduler.unfinished at hlive ⊢
    cases ha : s.seqTable id with
    | none => rw [ha] at hlive; cases hlive
    | some a =>
      obtain ⟨b, hb, hab⟩ := h.entry a ha
      simp [hb, hab.status]
  · unfold Scheduler.unfinished
    rw [h.others id hid]

theorem SwapFrame.oneQueue {L : Finset ℕ} {extra : List ℕ} (h : SwapFrame s s') (hone : OneQueue L extra s) :
    OneQueue L extra s' :=
  hone.move (fun id => by rw [queueCount_congr h.toSameQueues])
    fun id _ => unfinished_congr (fun _ _ hab => hab.status) h.table id

/-- Dummies are no live sequences. -/
theorem EntersDummies.oneQueue {L : Finset ℕ} {extra : List ℕ} (h : EntersDummies s s') (hone : OneQueue L extra s)
    (hfresh : ∀ id ∈ L, s.isReservedId id = false) : OneQueue L extra s' := by
  refine hone.move (fun id => ?_) fun id hid => ?_
  · unfold queueCount Scheduler.dp
    rw [h.config, h.waiting, h.waitingMigration, h.running, h.prefilling, h.toBeMigrated]
  · unfold Scheduler.unfinished
    rw [h.others id (hfresh id hid)]

end Scheduler

/-! ## The admission loop -/

namespace PrefillState

theorem sameQueues_notePlaced (st : PrefillState) (d v : ℕ) : SameQueues st.sched (st.notePlaced d v).sched :=
  ⟨rfl, rfl, rfl, rfl, rfl, rfl, rfl, rfl, rfl⟩

theorem queueCount_popQueue {st : PrefillState} {v : ℕ} (h : st.queue.head? = some v) (id : ℕ) :
    queueCount st.popQueue.sched id + [v].count id = queueCount st.sched id := by
  unfold queue at h
  unfold popQueue queueCount Scheduler.dp withSched
  by_cases hmode : st.sched.config.mode = .decode
  · rw [if_pos hmode] at h ⊢
    obtain ⟨tl, htl⟩ := List.head?_eq_some_iff.1 h
    simp only [htl, List.tail_cons, count_cons_eq v id tl]
    omega
  · rw [if_neg hmode] at h ⊢
    obtain ⟨tl, htl⟩ := List.head?_eq_some_iff.1 h
    simp only [htl, List.tail_cons, count_cons_eq v id tl]
    omega

theorem queueCount_join {st : PrefillState} {d : ℕ} (hd : d < st.sched.dp) (groupId v : ℕ)
    (newTokens : ℤ) (id : ℕ) :
    queueCount (st.join d groupId v newTokens).sched id = queueCount st.sched id + [v].count id := by
  unfold join
  have hsame : SameQueues (st.sched.pushRunning d v) ((st.sched.pushRunning d v).markScheduled v) :=
    ⟨rfl, rfl, rfl, rfl, rfl, rfl, rfl, rfl, rfl⟩
  rw [queueCount_congr hsame, queueCount_pushRunning hd]

/-- A queued id at the head of the queue is queued. -/
theorem queueCount_pos_of_mem_queue {st : PrefillState} {v : ℕ} (h : v ∈ st.queue) : 0 < queueCount st.sched v := by
  unfold queue at h
  unfold queueCount
  split at h <;> have := List.count_pos_iff.2 h <;> omega

end PrefillState

/-! ## The tests -/

section tests

variable [Xxh3]

/-- No try preempts a sequence that the same call has already put into its result. -/
def victimFresh : TryTest := fun st seqId dpIdx _ =>
  match st.sched.admissionVictim seqId dpIdx (st.numSeqs dpIdx) (st.numTokens dpIdx) with
  | none => true
  | some victim => decide (victim ∉ st.scheduled dpIdx)

/-- The victim of a try is the one that `admissionVictim` computes. -/
theorem admissionVictim_eq {s s₁ s₂ : Scheduler} {seqId dpIdx victim : ℕ} {batchSeqs batchTokens : ℕ → ℤ}
    {a : Admission} {e : PyErr} (hprep : s.prepareAdmission seqId dpIdx batchSeqs batchTokens = (some a, s₁))
    (hres : s₁.reserveAdmission seqId dpIdx a = (.error e, s₂))
    (hchosen : (s₂.cancelAdmission seqId).preemptVictim dpIdx seqId = some victim) :
    s.admissionVictim seqId dpIdx batchSeqs batchTokens = some victim := by
  unfold admissionVictim failedAdmission
  rw [hprep]
  dsimp only
  rw [hres]
  exact hchosen

/-- The test that the queues need: fresh victims, and the head of the queue stays where it is. -/
def queueTest : TryTest := fun st seqId dpIdx ranks =>
  victimFresh st seqId dpIdx ranks && headSafe st seqId dpIdx ranks

end tests

/-! ## The invariant of the admission loop -/

/-- Queues and result while a `schedule` call admits sequences. -/
structure AdmitInv (L : Finset ℕ) (extra : List ℕ) (st : PrefillState) : Prop where
  one : OneQueue L extra st.sched
  dummies : ∀ id ∈ st.sched.dummySeqIds, st.sched.isReservedId id = true
  nodup : ∀ d, (st.scheduled d).Nodup
  running : ∀ d id, id ∈ st.scheduled d → id ∈ st.sched.running d

namespace AdmitInv

variable {L : Finset ℕ} {extra : List ℕ} {st st' : PrefillState}

/-- Steps of the scheduler that leave queues and result alone. -/
theorem congr {s : Scheduler} (h : AdmitInv L extra st) (hs : SameQueues st.sched s)
    (hu : ∀ id, id ∈ L → s.unfinished id = st.sched.unfinished id) : AdmitInv L extra (st.withSched s) where
  one := h.one.move (fun id => by rw [← queueCount_congr hs]; rfl) hu
  dummies := fun id hid => (isReservedId_congr hs.config id).trans (h.dummies id (hs.dummySeqIds ▸ hid))
  nodup := h.nodup
  running := fun d id hid => by
    have := h.running d id hid
    unfold withSched
    rwa [hs.running]

/-- A sequence that is in no queue joins the batch of a rank. -/
theorem join {d seqId : ℕ} (groupId : ℕ) (newTokens : ℤ) (h : AdmitInv L (seqId :: extra) st)
    (hd : d < st.sched.dp) :
    AdmitInv L extra (st.join d groupId seqId newTokens) := by
  obtain ⟨-, hzero, -⟩ := h.one.head_live
  have hnot : seqId ∉ st.scheduled d := by
    intro hmem
    have hrun := List.count_pos_iff.2 (h.running d seqId hmem)
    have hle := count_running_le hd seqId
    omega
  refine ⟨h.one.requeue (queueCount_join hd groupId seqId newTokens) fun id => ?_, h.dummies, fun d' => ?_,
    fun d' id hid => ?_⟩
  · have hf : Frame (fun a b => b.status = a.status) seqId (st.sched.pushRunning d seqId)
        ((st.sched.pushRunning d seqId).markScheduled seqId) := Frame.of_updateSeq _ _ fun _ => rfl
    exact unfinished_congr (fun _ _ hab => hab) (hf.table fun _ => rfl) id
  · change (Function.update st.scheduled d (st.scheduled d ++ [seqId]) d').Nodup
    by_cases hd' : d' = d
    · subst hd'
      rw [Function.update_self]
      exact List.nodup_append.2 ⟨h.nodup d', List.nodup_singleton _, fun a ha b hb hab => hnot (by simp_all)⟩
    · rw [Function.update_of_ne hd']
      exact h.nodup d'
  · change id ∈ (st.sched.pushRunning d seqId).running d'
    rw [mem_pushRunning]
    change id ∈ Function.update st.scheduled d (st.scheduled d ++ [seqId]) d' at hid
    by_cases hd' : d' = d
    · subst hd'
      rw [Function.update_self, List.mem_append, List.mem_singleton] at hid
      exact hid.imp (h.running d' id) fun heq => ⟨rfl, heq⟩
    · rw [Function.update_of_ne hd'] at hid
      exact .inl (h.running d' id hid)

/-- The head of the queue is taken out. -/
theorem popQueue {seqId : ℕ} (h : AdmitInv L extra st) (hhead : st.queue.head? = some seqId) :
    AdmitInv L (seqId :: extra) st.popQueue where
  one := h.one.move (fun id => by rw [count_cons_eq, ← queueCount_popQueue hhead id]; omega) fun id _ => by
    unfold Scheduler.unfinished
    rw [seqTable_popQueue]
  dummies := fun id hid =>
    (isReservedId_congr (config_popQueue st) id).trans (h.dummies id (dummySeqIds_popQueue st ▸ hid))
  nodup := h.nodup
  running := fun d' id hid => by
    rw [running_popQueue]
    exact h.running d' id hid

/-- A restored sequence runs, outside the result. -/
theorem placeRestored {d seqId : ℕ} (h : AdmitInv L extra st) (hd : d < st.sched.dp)
    (hhead : st.queue.head? = some seqId) : AdmitInv L extra (st.placeRestored d seqId) := by
  have hd' : d < st.popQueue.sched.dp := by unfold Scheduler.dp at *; rwa [config_popQueue]
  have h₁ := h.popQueue hhead
  have h₂ : AdmitInv L extra (st.popQueue.withSched (st.popQueue.sched.pushRunning d seqId)) :=
    ⟨h₁.one.requeue (queueCount_pushRunning hd' seqId) fun _ => rfl, h₁.dummies, h₁.nodup,
      fun d' id hid => mem_pushRunning.2 (.inl (h₁.running d' id hid))⟩
  exact h₂.congr (sameQueues_notePlaced _ d seqId) fun _ _ => rfl

/-- An admitted sequence runs and is in the result. -/
theorem placeAdmitted {d seqId : ℕ} (newTokens : ℤ) (h : AdmitInv L extra st) (hd : d < st.sched.dp)
    (hhead : st.queue.head? = some seqId) : AdmitInv L extra (st.placeAdmitted d seqId newTokens) := by
  have hd' : d < st.popQueue.sched.dp := by unfold Scheduler.dp at *; rwa [config_popQueue]
  have h₂ := (h.popQueue hhead).join (st.sched.groupOfId seqId) newTokens hd'
  exact h₂.congr (sameQueues_notePlaced _ d seqId) fun _ _ => rfl

variable [Xxh3]

/-- A failed reservation and the preemption it makes. -/
theorem preempted {s₁ s₂ : Scheduler} {seqId d victim : ℕ} {a : Admission} {e : PyErr} (h : AdmitInv L extra st)
    (hlive : st.sched.unfinished seqId = true) (hrank : d < st.sched.dp) (hfresh : victim ∉ st.scheduled d)
    (hprep : st.sched.prepareAdmission seqId d (st.numSeqs d) (st.numTokens d) = (some a, s₁))
    (hres : s₁.reserveAdmission seqId d a = (.error e, s₂))
    (hchosen : (s₂.cancelAdmission seqId).preemptVictim d seqId = some victim) :
    AdmitInv L extra (st.withSched ((s₂.cancelAdmission seqId).preemptImpl d victim)) := by
  have hf := TryCase.cancelled_frame hprep hres
  have hp := preemptImpl_spec (s₂.cancelAdmission seqId) d victim
  have hu := hf.unfinished (fun _ _ hab => by rw [hab.2]; decide) hlive
  have h₁ : AdmitInv L extra (st.withSched (s₂.cancelAdmission seqId)) := h.congr hf.toSameQueues fun id _ => hu id
  have hd : d < (s₂.cancelAdmission seqId).dp := by unfold Scheduler.dp at *; rwa [hf.config]
  have hvict := (preemptVictim_mem hchosen).1
  have hcount := count_running_le hd victim
  have hpos : 0 < ((s₂.cancelAdmission seqId).running d).count victim := List.count_pos_iff.2 hvict
  have hle : queueCount (s₂.cancelAdmission seqId) victim + extra.count victim ≤ 1 := h₁.one.le_one victim
  have hvlive : (s₂.cancelAdmission seqId).unfinished victim = true := by
    refine (h₁.one.live_of_pos ?_).2
    change 0 < queueCount (s₂.cancelAdmission seqId) victim + _
    omega
  refine ⟨h₁.one.move (fun id => ?_) fun id _ => hp.unfinished hvlive id, fun id hid =>
    (isReservedId_congr hp.config id).trans (h₁.dummies id (hp.dummySeqIds ▸ hid)), h.nodup, ?_⟩
  · -- the victim was queued once, in the running queue of the rank
    have hq := queueCount_preempted hd hp id
    change queueCount ((s₂.cancelAdmission seqId).preemptImpl d victim) id + _ =
      queueCount (s₂.cancelAdmission seqId) id + _
    by_cases hid : id = victim
    · subst hid
      simp only [if_true, List.count_singleton_self] at hq
      omega
    · have hsing : [victim].count id = 0 := List.count_eq_zero.2 (by simpa using hid)
      rw [if_neg hid, hsing] at hq
      omega
  · intro d' id hid
    have hrun := h₁.running d' id hid
    change id ∈ ((s₂.cancelAdmission seqId).preemptImpl d victim).running d'
    rw [hp.running, mem_dropRunning]
    refine ⟨hrun, ?_⟩
    rintro rfl rfl
    exact hfresh hid

omit [Xxh3] in
/-- The head of the queue gets an unfinished status. -/
theorem restatus {s' : Scheduler} {R : Sequence → Sequence → Prop} {seqId : ℕ} (h : AdmitInv L extra st)
    (hR : ∀ a b, R a b → b.status ≠ .finished) (hf : Frame R seqId st.sched s')
    (hhead : st.queue.head? = some seqId) :
    AdmitInv L extra (st.withSched s') ∧ (st.withSched s').queue.head? = some seqId := by
  have hpos := queueCount_pos_of_mem_queue (List.mem_of_mem_head? hhead)
  have hlive := (h.one.live_of_pos (Nat.add_pos_left hpos _)).2
  refine ⟨h.congr hf.toSameQueues fun id _ => hf.unfinished hR hlive id, ?_⟩
  rw [queue_withSched_of_same hf.toSameQueues, hhead]

/-- An admission writes an unfinished status. -/
theorem tryOn_some_frame {seqId d : ℕ} {newTokens : ℤ} {s' : Scheduler}
    (h : st.tryOn seqId d = (.ok (some newTokens), s')) :
    Frame (fun _ y => y.status = .running) seqId st.sched s' := by
  have hcases := tryAllocatePrefill_cases h
  generalize hr : (some newTokens : Option ℤ) = r at hcases
  cases hcases with
  | refused => cases hr
  | preempted => cases hr
  | admitted hprep hres hfin =>
    exact (TryCase.admitted_frame hprep hres hfin).mono fun _ _ ⟨_, _, hb, _⟩ => hb.status

theorem step (h : AdmitInv L [] st) (hstep : AdmitStep queueTest st st') : AdmitInv L [] st' := by
  cases hstep with
  | @routed seqId hhead =>
    have hf := (routeCandidates_frame st.sched seqId 0).swapFrame
    exact h.congr hf.toSameQueues fun id _ => unfinished_congr (fun _ _ hab => hab.status) hf.table id
  | @tried seqId d ranks s' hmem hrank hhost htest htry =>
    have hlive := (h.one.live_of_pos (Nat.add_pos_left (queueCount_pos_of_mem_queue hmem) _)).2
    have hcases := tryAllocatePrefill_cases htry
    generalize hr : (none : Option ℤ) = r at hcases
    cases hcases with
    | refused hprep =>
      have hf := prepareAdmission_frame st.sched seqId d (st.numSeqs d) (st.numTokens d)
      rw [hprep] at hf
      refine h.congr hf.toSameQueues fun id _ => ?_
      refine unfinished_congr ?_ (hf.table Sequence.RecordsCached.refl) id
      rintro a b ⟨x, y, rfl⟩
      rfl
    | @preempted a s₁ s₂ e victim hprep hres hchosen =>
      have hfresh : victim ∉ st.scheduled d := by
        have hvf := (Bool.and_eq_true _ _ ▸ htest : victimFresh st seqId d ranks = true ∧ _).1
        unfold victimFresh at hvf
        rw [admissionVictim_eq hprep hres hchosen] at hvf
        simpa using hvf
      exact h.preempted hlive hrank hfresh hprep hres hchosen
    | admitted => cases hr
  | @restored seqId d s' hhead hrank hhost hrestore =>
    have hf := cacheTryRestoreHostBlocks_true hrestore
    obtain ⟨h₁, hhead₁⟩ := h.restatus (fun _ _ hab => by rw [hab.status]; decide) hf hhead
    exact h₁.placeRestored (hf.config ▸ hrank : d < s'.config.dp) hhead₁
  | @admitted seqId d ranks newTokens s' hhead hrank hhost htest htry =>
    have hf := tryOn_some_frame htry
    obtain ⟨h₁, hhead₁⟩ := h.restatus (fun _ _ hb => by rw [hb]; decide) hf hhead
    exact h₁.placeAdmitted newTokens (hf.config ▸ hrank : d < s'.config.dp) hhead₁

end AdmitInv

end NanoEngine
