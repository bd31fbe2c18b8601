import NanoEngine.Lib.Transition
import NanoEngine.Scheduler.AdmissionLoop

/-!
# NanoEngine.Engine.Ops — runs of the scheduler, call by call

The calls that the engine makes on its scheduler, in any order: requests and hand-overs arrive, `schedule` returns a
result, its swap tasks are completed, it is postprocessed, sequences are aborted and migrated ones freed.

* `OpState.last`: the last schedule result, until it is postprocessed.
* `OpState.live`: the ids added and not aborted since.
* A call that the engine never makes has no next state: an id that is still in use is not added, a result is
  postprocessed with one row for each of its sequences, a sequence of the outstanding result is not aborted (aborts
  are handled between engine steps), and only migrated ids are freed.  Neither has a `schedule` that fails.
-/

namespace NanoEngine

open Transition

/-- A request as a prefill engine hands it over: all its tokens are counted, and the prompt is among them. -/
def WireRequestMigrate.handedOver (request : WireRequestMigrate) : Bool :=
  decide (request.status = .toBeMigrated) && decide (request.numTokens = request.tokenIds.length)
    && decide (request.numPromptTokens ≤ request.numTokens)
    && decide (request.numCheckpointedTokens ≤ request.numTokens)

namespace Scheduler

/-- The ids that `make_dummy_seq_id` uses; there are none with a single group. -/
def isReservedId (s : Scheduler) (seqId : ℕ) : Bool :=
  decide (1 < s.group) && (List.range (s.dp * s.group)).any (fun k => decide (seqId = u64Max - k))

/-- The sequence is known and not finished. -/
def unfinished (s : Scheduler) (seqId : ℕ) : Bool :=
  ((s.seqTable seqId).map (fun seq => decide (seq.status ≠ .finished))).getD false

theorem isReservedId_congr {s s' : Scheduler} (h : s'.config = s.config) (id : ℕ) :
    s'.isReservedId id = s.isReservedId id := by
  unfold isReservedId Scheduler.dp Scheduler.group
  rw [h]

/-- Between `s` and `s'` dummies were entered, under ids that are reserved for them. -/
structure EntersDummies (s s' : Scheduler) : Prop where
  config : s'.config = s.config
  waiting : s'.waiting = s.waiting
  waitingMigration : s'.waitingMigration = s.waitingMigration
  running : s'.running = s.running
  prefilling : s'.prefilling = s.prefilling
  toBeMigrated : s'.toBeMigrated = s.toBeMigrated
  cache : s'.cache = s.cache
  lastStepTokenIds : s'.lastStepTokenIds = s.lastStepTokenIds
  kept : s.dummySeqIds ⊆ s'.dummySeqIds
  reserved : ∀ id ∈ s'.dummySeqIds, id ∈ s.dummySeqIds ∨ s.isReservedId id = true
  others : ∀ id, s.isReservedId id = false → s'.seqTable id = s.seqTable id
  entry : ∀ id seq, s'.seqTable id = some seq → s.seqTable id = some seq ∨ seq.IsDummy id

theorem EntersDummies.refl (s : Scheduler) : EntersDummies s s :=
  ⟨rfl, rfl, rfl, rfl, rfl, rfl, rfl, rfl, fun _ h => h, fun _ h => .inl h, fun _ _ => rfl, fun _ _ h => .inl h⟩

theorem EntersDummies.trans {s s' s'' : Scheduler} (h : EntersDummies s s') (k : EntersDummies s' s'') :
    EntersDummies s s'' where
  config := k.config.trans h.config
  waiting := k.waiting.trans h.waiting
  waitingMigration := k.waitingMigration.trans h.waitingMigration
  running := k.running.trans h.running
  prefilling := k.prefilling.trans h.prefilling
  toBeMigrated := k.toBeMigrated.trans h.toBeMigrated
  cache := k.cache.trans h.cache
  lastStepTokenIds := k.lastStepTokenIds.trans h.lastStepTokenIds
  kept := h.kept.trans k.kept
  reserved := fun id hid => (k.reserved id hid).elim (h.reserved id) fun hres =>
    .inr (isReservedId_congr h.config id ▸ hres)
  others := fun id hid => (k.others id (by rwa [isReservedId_congr h.config])).trans (h.others id hid)
  entry := fun id seq hseq => (k.entry id seq hseq).elim (h.entry id seq) .inr

theorem makeDummySeqId_enters {s : Scheduler} {d g : ℕ} (hd : d < s.dp) (hg : g < s.group) (hgroup : 1 < s.group) :
    EntersDummies s (s.makeDummySeqId d g).2 := by
  have hlt : d * s.group + g < s.dp * s.group := by
    have := Nat.mul_le_mul_right s.group (Nat.succ_le_of_lt hd)
    rw [Nat.succ_mul] at this
    omega
  have hres : s.isReservedId (u64Max - (d * s.group + g)) = true := by
    unfold isReservedId
    rw [decide_eq_true hgroup, Bool.true_and, List.any_eq_true]
    exact ⟨d * s.group + g, List.mem_range.2 hlt, by simp⟩
  have hadd := s.makeDummySeqId_spec d g
  generalize u64Max - (d * s.group + g) = dummy at hres hadd
  refine ⟨hadd.config, hadd.waiting, hadd.waitingMigration, hadd.running, hadd.prefilling,
    hadd.toBeMigrated, hadd.cache,
    hadd.lastStepTokenIds, ?_, fun id hid => ?_, fun id hid => hadd.others id ?_, fun id seq hseq => ?_⟩
  · rw [hadd.dummySeqIds]
    exact Finset.subset_insert _ _
  · rw [hadd.dummySeqIds] at hid
    rcases Finset.mem_insert.1 hid with rfl | hid
    · exact .inr hres
    · exact .inl hid
  · rintro rfl
    rw [hid] at hres
    cases hres
  · by_cases hne : id = dummy
    · subst hne
      obtain ⟨seq', hseq', hdummy⟩ := hadd.entry
      rw [hseq'] at hseq
      cases hseq
      exact .inr hdummy
    · exact .inl (hadd.others id hne ▸ hseq)

/-- The dummies of a decode pass are entered and listed. -/
theorem decodeDummies_enters {s : Scheduler} {d : ℕ} (groupLens : ℕ → ℤ) (ids : List ℕ) (hd : d < s.dp)
    (hids : ∀ g ∈ ids, g < s.group) : EntersDummies s (decodeDummies d groupLens ids s).2 ∧
      ∀ id ∈ (decodeDummies d groupLens ids s).1, id ∈ (decodeDummies d groupLens ids s).2.dummySeqIds := by
  induction ids generalizing s with
  | nil => exact ⟨.refl s, fun _ h => by cases h⟩
  | cons g ids ih =>
    have htail : ∀ g' ∈ ids, g' < s.group := fun g' hg' => hids g' (List.mem_cons_of_mem _ hg')
    unfold decodeDummies
    split
    case isTrue hgroup =>
      have h₁ := makeDummySeqId_enters hd (hids g List.mem_cons_self) hgroup.2
      obtain ⟨h₂, hlisted⟩ := ih (s := (s.makeDummySeqId d g).2) hd htail
      refine ⟨h₁.trans h₂, fun id hid => ?_⟩
      rcases List.mem_cons.1 hid with rfl | hid
      · exact h₂.kept (Finset.mem_insert_self _ _)
      · exact hlisted id hid
    case isFalse => exact ih hd htail

end Scheduler

/-- One output row for each sequence of the result. -/
def ScheduleResult.rowsMatch (r : ScheduleResult) (rows : List (List (List ℤ))) : Bool :=
  decide (rows.map List.length = r.filteredDpGroupSeqIds.map List.length)

inductive SchedulerOp
  | addRequest (request : WireRequestIn)
  | addMigrated (request : WireRequestMigrate)
  | schedule
  | completeSwapOuts
  | completeSwapIns
  | postprocess (rows : List (List (List ℤ))) (logprobs : List (List (List ℚ)))
  | abort (seqId : ℕ)
  | freeMigrated (seqId : ℕ)
  | setPrefixCaching (enabled : Bool)

structure OpState where
  sched : Scheduler
  last : Option ScheduleResult
  live : Finset ℕ

namespace OpState

def init (config : SchedulerConfig) : OpState := ⟨Scheduler.new config, none, ∅⟩

/-- Live and not terminal: added, not aborted and not finished. -/
def isLive (x : OpState) (seqId : ℕ) : Bool := decide (seqId ∈ x.live) && x.sched.unfinished seqId

/-- The sequence is in the outstanding result. -/
def isOutstanding (x : OpState) (seqId : ℕ) : Bool :=
  (x.last.map (fun r => r.dpSeqIds.any (fun ids => ids.contains seqId))).getD false

def add (x : OpState) (seq : Sequence) : Option OpState :=
  if x.isLive seq.seqId || x.sched.isReservedId seq.seqId then none
  else some { x with sched := x.sched.addSequence seq, live := insert seq.seqId x.live }

variable [Xxh3]

def next (x : OpState) : SchedulerOp → Option OpState
  | .addRequest request => x.add (requestToSequence request)
  | .addMigrated request => if request.handedOver then x.add (migrateRequestToSequence request) else none
  | .schedule =>
    match x.sched.schedule with
    | (.ok r, s) => some { x with sched := s, last := some r }
    | (.error _, _) => none
  | .completeSwapOuts => x.last.map fun r => { x with sched := x.sched.cacheCompleteHostSwapOuts r.swapOutTasks }
  | .completeSwapIns => x.last.map fun r => { x with sched := x.sched.cacheCompleteHostSwapIns r.swapInTasks }
  | .postprocess rows logprobs =>
    x.last.bind fun r =>
      if r.rowsMatch rows then
        some { x with sched := x.sched.postprocessImpl r.filteredDpGroupSeqIds rows logprobs, last := none }
      else none
  | .abort seqId =>
    if x.isOutstanding seqId then none
    else
      let r := x.sched.abortImpl seqId
      some { x with sched := r.2, live := if r.1 then x.live.erase seqId else x.live }
  | .freeMigrated seqId =>
    if (x.sched.toBeMigrated seqId).isSome then some { x with sched := x.sched.freeToBeMigratedIdsImpl [seqId] }
    else none
  | .setPrefixCaching enabled => some { x with sched := x.sched.setPrefixCachingEnabled enabled }

/-- What a call can do. -/
inductive Step (x : OpState) : SchedulerOp → OpState → Prop
  | added {x' : OpState} (request : WireRequestIn) (h : x.add (requestToSequence request) = some x') :
    Step x (.addRequest request) x'
  | handedOver {x' : OpState} (request : WireRequestMigrate) (hover : request.handedOver = true)
    (h : x.add (migrateRequestToSequence request) = some x') : Step x (.addMigrated request) x'
  | scheduled {r : ScheduleResult} {s : Scheduler} (h : x.sched.schedule = (.ok r, s)) :
    Step x .schedule { x with sched := s, last := some r }
  | swappedOut {r : ScheduleResult} (hr : x.last = some r) :
    Step x .completeSwapOuts { x with sched := x.sched.cacheCompleteHostSwapOuts r.swapOutTasks }
  | swappedIn {r : ScheduleResult} (hr : x.last = some r) :
    Step x .completeSwapIns { x with sched := x.sched.cacheCompleteHostSwapIns r.swapInTasks }
  | postprocessed {r : ScheduleResult} (rows : List (List (List ℤ))) (logprobs : List (List (List ℚ)))
    (hr : x.last = some r) (hrows : r.rowsMatch rows = true) : Step x (.postprocess rows logprobs)
      { x with sched := x.sched.postprocessImpl r.filteredDpGroupSeqIds rows logprobs, last := none }
  | aborted {seqId : ℕ} (hout : x.isOutstanding seqId = false) : Step x (.abort seqId)
      { x with
        sched := (x.sched.abortImpl seqId).2
        live := if (x.sched.abortImpl seqId).1 then x.live.erase seqId else x.live }
  | freed {seqId : ℕ} (hmig : (x.sched.toBeMigrated seqId).isSome = true) :
    Step x (.freeMigrated seqId) { x with sched := x.sched.freeToBeMigratedIdsImpl [seqId] }
  | toggled (enabled : Bool) :
    Step x (.setPrefixCaching enabled) { x with sched := x.sched.setPrefixCachingEnabled enabled }

theorem step_of_next {x x' : OpState} {op : SchedulerOp} (h : x.next op = some x') : Step x op x' := by
  cases op with
  | addRequest request => exact .added request h
  | addMigrated request =>
    simp only [next] at h
    split at h
    case isTrue hover => exact .handedOver request hover h
    case isFalse => cases h
  | schedule =>
    simp only [next] at h
    split at h
    case h_1 r s hs =>
      cases h
      exact .scheduled hs
    case h_2 => cases h
  | completeSwapOuts =>
    obtain ⟨r, hr, rfl⟩ := Option.map_eq_some_iff.1 h
    exact .swappedOut hr
  | completeSwapIns =>
    obtain ⟨r, hr, rfl⟩ := Option.map_eq_some_iff.1 h
    exact .swappedIn hr
  | postprocess rows logprobs =>
    obtain ⟨r, hr, h⟩ := Option.bind_eq_some_iff.1 h
    split at h
    case isTrue hrows =>
      cases h
      exact .postprocessed rows logprobs hr hrows
    case isFalse => cases h
  | abort seqId =>
    simp only [next] at h
    split at h
    case isTrue => cases h
    case isFalse hout =>
      cases h
      exact .aborted (by simpa using hout)
  | freeMigrated seqId =>
    simp only [next] at h
    split at h
    case isTrue hmig =>
      cases h
      exact .freed hmig
    case isFalse => cases h
  | setPrefixCaching enabled =>
    cases h
    exact .toggled enabled

end OpState

/-- The scheduler of one engine, call by call. -/
def callSystem [Xxh3] (config : SchedulerConfig) : System OpState SchedulerOp where
  initial x := x = OpState.init config
  next := OpState.next

/-! ## Tests along a `schedule` call -/

namespace Scheduler

open PrefillState

variable [Xxh3]

/-- `W` holds at every try of the admission loop of a `schedule` call in this state. -/
def prefillPasses (W : TryTest) (s : Scheduler) : Bool :=
  let st := (PrefillState.init { s with currentStep := s.currentStep + 1 }).continueAll
  admitPasses W st.admissionFuel st

/-- A test of one sequence of the decode pass: state, sequence and rank. -/
abbrev DecodeTest := DecodeState → ℕ → ℕ → Bool

/-- `D` holds for every sequence that a decode pass meets on a rank. -/
def decodeSeqsPass (D : DecodeTest) (dpIdx : ℕ) : List ℕ → DecodeState → Bool
  | [], _ => true
  | seqId :: ids, st => D st seqId dpIdx && decodeSeqsPass D dpIdx ids (decodeSeq dpIdx st seqId)

def decodeRanksPass (D : DecodeTest) : List ℕ → Scheduler → Bool
  | [], _ => true
  | dpIdx :: ranks, s =>
    decodeSeqsPass D dpIdx (s.running dpIdx) (s.decodeStart dpIdx) && decodeRanksPass D ranks (s.decodeRank dpIdx).2

/-- `W` holds at every try and `D` at every sequence of the decode pass, if the call comes to one. -/
def schedulePasses (W : TryTest) (D : DecodeTest) (s : Scheduler) : Bool :=
  s.prefillPasses W &&
    match { s with currentStep := s.currentStep + 1 }.schedulePrefill with
    | (.ok prefill, s) => prefill.any (fun seqs => !seqs.isEmpty) || decodeRanksPass D (List.range s.dp) s
    | (.error _, _) => true

end Scheduler

end NanoEngine
