import NanoEngine.Lib.Transition
import NanoEngine.Server.Events

/-!
# NanoEngine.Server.Backend — the frees that a decode backend sends

`_send_p2p_free_if_migrated`, `_handle_abort` and the part of `run_engine_backend` in `dlengine/server/engine_server.py`
that follows `engine.step`.

* The engine batches live sequences as it likes, finishes any of them and may raise: a step is given by the ids of its
  batch and by the scheduler that it leaves behind.  Its events are those of `collectSequenceEvents`.
* The first step that schedules a migrated sequence copies its KV cache.
* `freed_once`: every migrated sequence that was scheduled is freed once, after the copy, as long as no sequence
  finishes in the step in which it comes back to the batch and no step raises that schedules a sequence for the first
  time.
-/

namespace NanoEngine

open Transition

/-- A free sent to another engine, and whether the step that copied the KV cache had completed. -/
structure SentFree where
  seqId : ℕ
  engineId : String
  copied : Bool
  deriving DecidableEq

structure BackendState where
  /-- `_previous_running_seqs` -/
  previousRunning : Finset ℕ
  /-- `_freed_sequences` -/
  freed : Finset ℕ
  /-- the engine that handed a sequence over, `""` when none did -/
  source : ℕ → Option String
  /-- added, not finished and not aborted -/
  live : Finset ℕ
  scheduled : Finset ℕ
  copied : Finset ℕ
  frees : List SentFree

inductive BackendOp
  | add (seqId : ℕ) (sourceEngineId : String)
  /-- `engine.step` returns -/
  | step (s : Scheduler) (ids : List ℕ)
  /-- `engine.step` raises after it scheduled a batch -/
  | raised (ids : List ℕ)
  /-- `engine.abort` returns these ids -/
  | abort (ids : List ℕ)

namespace BackendState

def init : BackendState := ⟨∅, ∅, fun _ => none, ∅, ∅, ∅, []⟩

/-- `_send_p2p_free_if_migrated`. -/
def sendP2pFreeIfMigrated (x : BackendState) (seqId : ℕ) (sourceEngineId : String) : BackendState :=
  if seqId ∈ x.freed then x
  else if sourceEngineId ≠ "" then
    { x with
      frees := x.frees ++ [⟨seqId, sourceEngineId, decide (seqId ∈ x.copied)⟩]
      freed := insert seqId x.freed }
  else x

/-- `service._freed_sequences.discard(seq_id)` for a finished sequence. -/
def noteEvent (x : BackendState) (event : SequenceEvent) : BackendState :=
  if event.isFinished then { x with freed := x.freed.erase event.seqId } else x

/-- The loop over `newly_appeared_seqs`. -/
def sendNewlyAppeared (newly : List (ℕ × String)) (x : BackendState) : BackendState :=
  newly.foldl (fun x p => if p.2 ≠ "" then x.sendP2pFreeIfMigrated p.1 p.2 else x) x

/-- What the loop does with the events of a step: first all events, then the frees. -/
def emit (x : BackendState) (events : List SequenceEvent) : BackendState :=
  let newly := (events.filter (·.isNewRunning)).map (fun event => (event.seqId, event.sourceEngineId))
  { (events.foldl noteEvent x).sendNewlyAppeared newly with
    previousRunning := (events.map (·.seqId)).toFinset }

def events (x : BackendState) (s : Scheduler) (ids : List ℕ) : List SequenceEvent :=
  (Scheduler.collectSequenceEvents true x.previousRunning ids s).1

/-- The batch has live sequences only, and nothing changed where they come from. -/
def reports (x : BackendState) (events : List SequenceEvent) : Bool :=
  events.all (fun event => decide (event.seqId ∈ x.live) && decide (x.source event.seqId = some event.sourceEngineId))

/-- The batch of a completed step is scheduled; for those that are in a batch for the first time it was the copy. -/
def complete (x : BackendState) (events : List SequenceEvent) : BackendState :=
  let batch := (events.map (·.seqId)).toFinset
  { x with
    scheduled := x.scheduled ∪ batch
    copied := x.copied ∪ batch \ x.scheduled
    live := x.live \ ((events.filter (·.isFinished)).map (·.seqId)).toFinset }

def next (x : BackendState) : BackendOp → Option BackendState
  | .add seqId sourceEngineId =>
    if seqId ∈ x.live then none
    else some { x with
      source := Function.update x.source seqId (some sourceEngineId)
      live := insert seqId x.live }
  | .step s ids =>
    if x.reports (x.events s ids) then some ((x.complete (x.events s ids)).emit (x.events s ids)) else none
  | .raised ids =>
    if ids.toFinset ⊆ x.live then some { x with scheduled := x.scheduled ∪ ids.toFinset } else none
  | .abort ids =>
    if ids.toFinset ⊆ x.live then some { x with live := x.live \ ids.toFinset, freed := x.freed \ ids.toFinset }
    else none

end BackendState

def backendSystem : System BackendState BackendOp where
  initial x := x = BackendState.init
  next := BackendState.next

/-- No id arrives twice; a migrated sequence that finishes is scheduled for the first time or was also in the batch
before; a step that raises schedules no migrated sequence for the first time. -/
def freeGuard : BackendState → BackendOp → Bool
  | x, .add seqId _ => (x.source seqId).isNone
  | x, .step s ids => (x.events s ids).all (fun event =>
      !event.isFinished || decide (event.sourceEngineId = "") || decide (event.seqId ∉ x.scheduled)
        || decide (event.seqId ∈ x.previousRunning))
  | x, .raised ids => ids.all (fun id => decide (id ∈ x.scheduled) || decide (x.source id = some ""))
  | _, .abort _ => true

/-! ## The frees of one step -/

namespace BackendState

/-- The frees that were sent for a sequence. -/
def freesOf (x : BackendState) (seqId : ℕ) : List SentFree := x.frees.filter (fun f => decide (f.seqId = seqId))

variable {x : BackendState}

theorem sendP2pFreeIfMigrated_freed (x : BackendState) (seqId : ℕ) {source : String} (h : source ≠ "") :
    (x.sendP2pFreeIfMigrated seqId source).freed = insert seqId x.freed := by
  unfold sendP2pFreeIfMigrated
  rw [if_pos h]
  split
  case isTrue hmem => rw [Finset.insert_eq_of_mem hmem]
  case isFalse => rfl

theorem sendP2pFreeIfMigrated_copied (x : BackendState) (seqId : ℕ) (source : String) :
    (x.sendP2pFreeIfMigrated seqId source).copied = x.copied := by
  unfold sendP2pFreeIfMigrated
  split
  · rfl
  · split <;> rfl

/-- The sequence itself is freed, unless it was before; nothing is sent for the others. -/
theorem sendP2pFreeIfMigrated_freesOf (x : BackendState) (seqId : ℕ) {source : String}
    (h : source ≠ "") (id : ℕ) :
    (x.sendP2pFreeIfMigrated seqId source).freesOf id =
      x.freesOf id ++ if id = seqId ∧ id ∉ x.freed then [⟨id, source, decide (id ∈ x.copied)⟩] else [] := by
  unfold sendP2pFreeIfMigrated freesOf
  rw [if_pos h]
  split
  case isTrue hmem =>
    rw [if_neg (by rintro ⟨rfl, hnot⟩; exact hnot hmem), List.append_nil]
  case isFalse hnot =>
    rw [List.filter_append]
    by_cases hid : id = seqId
    · subst hid
      simp [hnot]
    · simp [hid, Ne.symm hid]

theorem sendNewlyAppeared_cons (p : ℕ × String) (newly : List (ℕ × String)) (x : BackendState) :
    sendNewlyAppeared (p :: newly) x =
      sendNewlyAppeared newly (if p.2 ≠ "" then x.sendP2pFreeIfMigrated p.1 p.2 else x) := rfl

theorem mem_freed_sendNewlyAppeared {newly : List (ℕ × String)} {id : ℕ} :
    id ∈ (sendNewlyAppeared newly x).freed ↔ id ∈ x.freed ∨ ∃ p ∈ newly, p.1 = id ∧ p.2 ≠ "" := by
  induction newly generalizing x with
  | nil => simp [sendNewlyAppeared]
  | cons p newly ih =>
    rw [sendNewlyAppeared_cons, ih]
    split
    case isTrue hp =>
      rw [sendP2pFreeIfMigrated_freed x p.1 hp, Finset.mem_insert, List.exists_mem_cons_iff]
      simp only [eq_comm (a := id)]
      tauto
    case isFalse hp =>
      rw [List.exists_mem_cons_iff]
      tauto

/-- What was freed before or did not migrate is not freed. -/
theorem freesOf_sendNewlyAppeared_skip {newly : List (ℕ × String)} {id : ℕ}
    (h : id ∈ x.freed ∨ ∀ p ∈ newly, p.1 = id → p.2 = "") :
      (sendNewlyAppeared newly x).freesOf id = x.freesOf id := by
  induction newly generalizing x with
  | nil => rfl
  | cons p newly ih =>
    rw [sendNewlyAppeared_cons]
    split
    case isTrue hp =>
      have hskip : ¬ (id = p.1 ∧ id ∉ x.freed) := by
        rintro ⟨rfl, hnot⟩
        exact hp ((h.resolve_left hnot) p List.mem_cons_self rfl)
      rw [ih, sendP2pFreeIfMigrated_freesOf x p.1 hp, if_neg hskip, List.append_nil]
      rw [sendP2pFreeIfMigrated_freed x p.1 hp]
      exact h.imp Finset.mem_insert_of_mem fun hall q hq => hall q (List.mem_cons_of_mem _ hq)
    case isFalse =>
      exact ih (h.imp_right fun hall q hq => hall q (List.mem_cons_of_mem _ hq))

/-- A migrated sequence that was not freed is freed once, however often it is listed. -/
theorem freesOf_sendNewlyAppeared_once {newly : List (ℕ × String)} {id : ℕ} {source : String}
    (hmem : (id, source) ∈ newly)
    (hsource : source ≠ "") (hall : ∀ p ∈ newly, p.1 = id → p.2 = source) (hnot : id ∉ x.freed) :
    (sendNewlyAppeared newly x).freesOf id = x.freesOf id ++ [⟨id, source, decide (id ∈ x.copied)⟩] := by
  induction newly generalizing x with
  | nil => cases hmem
  | cons p newly ih =>
    have htail : ∀ q ∈ newly, q.1 = id → q.2 = source := fun q hq => hall q (List.mem_cons_of_mem _ hq)
    rw [sendNewlyAppeared_cons]
    by_cases hid : p.1 = id
    · have hp : p.2 ≠ "" := by
        rw [hall p List.mem_cons_self hid]
        exact hsource
      rw [if_pos hp, freesOf_sendNewlyAppeared_skip, sendP2pFreeIfMigrated_freesOf x p.1 hp,
        if_pos ⟨hid.symm, hnot⟩,
        hall p List.mem_cons_self hid]
      rw [sendP2pFreeIfMigrated_freed x p.1 hp, hid]
      exact .inl (Finset.mem_insert_self _ _)
    · have hmem' : (id, source) ∈ newly := (List.mem_cons.1 hmem).resolve_left fun h => hid (by rw [← h])
      split
      case isTrue hp =>
        rw [ih hmem' htail, sendP2pFreeIfMigrated_freesOf x p.1 hp, if_neg fun h => hid h.1.symm, List.append_nil,
          sendP2pFreeIfMigrated_copied]
        rw [sendP2pFreeIfMigrated_freed x p.1 hp, Finset.mem_insert]
        exact fun h => h.elim (fun h => hid h.symm) hnot
      case isFalse => exact ih hmem' htail hnot

/-! ## The events of a step -/

theorem events_cases {s : Scheduler} {ids : List ℕ} {event : SequenceEvent} (h : event ∈ x.events s ids) :
    event.isNewRunning = decide (event.seqId ∉ x.previousRunning) := by
  unfold events at h
  induction ids generalizing s with
  | nil => cases h
  | cons id ids ih =>
    unfold Scheduler.collectSequenceEvents at h
    split at h
    case isTrue => exact ih h
    case isFalse =>
      split at h
      case h_1 => exact ih h
      case h_2 seq _ =>
        rcases List.mem_cons.1 h with rfl | h
        · rfl
        · exact ih h

/-- The finished sequences lose their mark. -/
theorem mem_freed_noteEvents {events : List SequenceEvent} {id : ℕ} :
    id ∈ (events.foldl noteEvent x).freed ↔ id ∈ x.freed ∧ ∀ event ∈ events, event.seqId = id →
      event.isFinished = false := by
  induction events generalizing x with
  | nil => simp
  | cons event events ih =>
    rw [List.foldl_cons, ih, List.forall_mem_cons]
    unfold noteEvent
    split
    case isTrue hfin =>
      rw [Finset.mem_erase]
      simp only [hfin, Bool.true_eq_false, imp_false, ne_comm (a := id)]
      tauto
    case isFalse hfin =>
      simp only [Bool.not_eq_true] at hfin
      simp only [hfin, implies_true, true_and]

theorem noteEvents_frame (events : List SequenceEvent) (x : BackendState) :
    (events.foldl noteEvent x).frees = x.frees ∧ (events.foldl noteEvent x).copied = x.copied := by
  induction events generalizing x with
  | nil => exact ⟨rfl, rfl⟩
  | cons event events ih =>
    rw [List.foldl_cons, (ih _).1, (ih _).2]
    unfold noteEvent
    split <;> exact ⟨rfl, rfl⟩

/-- What emitting the events of a step leaves alone. -/
structure EmitFrame (x x' : BackendState) : Prop where
  source : x'.source = x.source
  live : x'.live = x.live
  scheduled : x'.scheduled = x.scheduled

theorem EmitFrame.refl (x : BackendState) : EmitFrame x x := ⟨rfl, rfl, rfl⟩

theorem EmitFrame.trans {x x' x'' : BackendState} (h : EmitFrame x x') (k : EmitFrame x' x'') : EmitFrame x x'' :=
  ⟨k.source.trans h.source, k.live.trans h.live, k.scheduled.trans h.scheduled⟩

theorem EmitFrame.foldl {α : Type} {f : BackendState → α → BackendState}
    (hf : ∀ x a, EmitFrame x (f x a)) (l : List α)
    (x : BackendState) : EmitFrame x (l.foldl f x) := by
  induction l generalizing x with
  | nil => exact .refl x
  | cons a l ih => exact (hf x a).trans (ih (f x a))

theorem emit_frame (x : BackendState) (events : List SequenceEvent) : EmitFrame x (x.emit events) := by
  have hnote : EmitFrame x (events.foldl noteEvent x) := by
    refine .foldl (fun x event => ?_) events x
    unfold noteEvent
    split <;> exact ⟨rfl, rfl, rfl⟩
  have hsend : ∀ (newly : List (ℕ × String)) (x : BackendState), EmitFrame x (sendNewlyAppeared newly x) := by
    refine fun newly x => .foldl (fun x p => ?_) newly x
    unfold sendP2pFreeIfMigrated
    split
    · split <;> exact ⟨rfl, rfl, rfl⟩
    · exact ⟨rfl, rfl, rfl⟩
  obtain ⟨h₁, h₂, h₃⟩ := hnote.trans (hsend _ _)
  exact ⟨h₁, h₂, h₃⟩

/-- The entries of `newly_appeared_seqs`. -/
theorem mem_newly {events : List SequenceEvent} {p : ℕ × String} :
    p ∈ (events.filter (·.isNewRunning)).map (fun event => (event.seqId, event.sourceEngineId)) ↔
      ∃ event ∈ events, event.isNewRunning = true ∧ (event.seqId, event.sourceEngineId) = p := by
  simp only [List.mem_map, List.mem_filter, and_assoc]

theorem mem_freed_emit {events : List SequenceEvent} {id : ℕ} : id ∈ (x.emit events).freed ↔
    (id ∈ x.freed ∧ ∀ event ∈ events, event.seqId = id → event.isFinished = false) ∨
      ∃ event ∈ events, event.isNewRunning = true ∧ event.seqId = id ∧ event.sourceEngineId ≠ "" := by
  unfold emit
  dsimp only
  rw [mem_freed_sendNewlyAppeared, mem_freed_noteEvents]
  refine or_congr_right ⟨?_, ?_⟩
  · rintro ⟨p, hp, rfl, hsource⟩
    obtain ⟨event, hevent, hnew, rfl⟩ := mem_newly.1 hp
    exact ⟨event, hevent, hnew, rfl, hsource⟩
  · rintro ⟨event, hevent, hnew, rfl, hsource⟩
    exact ⟨_, mem_newly.2 ⟨event, hevent, hnew, rfl⟩, rfl, hsource⟩

end BackendState

/-! ## Runs -/

/-- Every migrated sequence that was scheduled was freed once, to the engine it came from and after its copy; nothing
was sent for the others. -/
def FreedOnce (x : BackendState) : Prop :=
  ∀ id source, x.source id = some source → source ≠ "" →
    x.freesOf id = if id ∈ x.scheduled then [⟨id, source, true⟩] else []

structure BackendInv (x : BackendState) : Prop where
  known : ∀ id ∈ x.scheduled, (x.source id).isSome
  previous : ∀ id ∈ x.previousRunning, id ∈ x.scheduled
  unmarked : ∀ id ∈ x.freed, id ∈ x.scheduled
  unsent : ∀ id, id ∉ x.scheduled → x.freesOf id = []
  once : FreedOnce x
  marked : ∀ id ∈ x.scheduled, id ∈ x.live → ∀ source, x.source id = some source →
    source ≠ "" → id ∈ x.freed

namespace BackendInv

variable {x : BackendState} {events : List SequenceEvent}

theorem freesOf_noteEvents (x : BackendState) (events : List SequenceEvent) (id : ℕ) :
    (events.foldl BackendState.noteEvent (x.complete events)).freesOf id = x.freesOf id := by
  unfold BackendState.freesOf
  rw [(BackendState.noteEvents_frame events _).1]
  rfl

/-- A sequence that was scheduled before is not freed again: when it comes back to the batch it does not finish, so it
has kept its mark. -/
theorem freesOf_scheduled (h : BackendInv x) (hreports : x.reports events = true)
    (hnew : ∀ event ∈ events, event.isNewRunning = decide (event.seqId ∉ x.previousRunning))
    (hguard : ∀ event ∈ events, event.isFinished = true → event.sourceEngineId ≠ "" →
      event.seqId ∈ x.scheduled →
      event.seqId ∈ x.previousRunning) {id : ℕ} (hid : id ∈ x.scheduled) :
    ((x.complete events).emit events).freesOf id = x.freesOf id := by
  rw [← freesOf_noteEvents x events]
  refine BackendState.freesOf_sendNewlyAppeared_skip ?_
  by_cases hall : ∀ event ∈ events, event.isNewRunning = true → event.seqId = id → event.sourceEngineId = ""
  · refine .inr fun p hp hpid => ?_
    obtain ⟨event, hevent, hisNew, rfl⟩ := BackendState.mem_newly.1 hp
    exact hall event hevent hisNew hpid
  · refine .inl (BackendState.mem_freed_noteEvents.2 ?_)
    push Not at hall
    obtain ⟨event, hevent, hisNew, rfl, hsource⟩ := hall
    have hback : event.seqId ∉ x.previousRunning := by
      rw [hnew event hevent] at hisNew
      exact of_decide_eq_true hisNew
    have hreported := fun e he => (Bool.and_eq_true _ _ ▸ List.all_eq_true.1 hreports e he)
    have hlive := hreported event hevent
    rw [decide_eq_true_eq, decide_eq_true_eq] at hlive
    refine ⟨h.marked _ hid hlive.1 _ hlive.2 hsource, fun e he heid => ?_⟩
    have hsame := hreported e he
    rw [decide_eq_true_eq, decide_eq_true_eq, heid, hlive.2, Option.some.injEq] at hsame
    refine Bool.eq_false_iff.2 fun hfin => hback ?_
    have := hguard e he hfin (hsame.2 ▸ hsource) (heid ▸ hid)
    rwa [heid] at this

/-- A migrated sequence is freed at the end of the first step that schedules it. -/
theorem freesOf_first (h : BackendInv x) (hreports : x.reports events = true)
    (hnew : ∀ event ∈ events, event.isNewRunning = decide (event.seqId ∉ x.previousRunning))
    {event : SequenceEvent}
    (hevent : event ∈ events) (hfirst : event.seqId ∉ x.scheduled) (hsource : event.sourceEngineId ≠ "") :
    ((x.complete events).emit events).freesOf event.seqId = [⟨event.seqId, event.sourceEngineId, true⟩] := by
  have hcopied := (BackendState.noteEvents_frame events (x.complete events)).2
  have hisNew : event.isNewRunning = true := by
    rw [hnew event hevent]
    exact decide_eq_true fun hprev => hfirst (h.previous _ hprev)
  have hcopy : event.seqId ∈ (x.complete events).copied := by
    refine Finset.mem_union_right _ (Finset.mem_sdiff.2 ⟨?_, hfirst⟩)
    rw [List.mem_toFinset]
    exact List.mem_map_of_mem hevent
  have hsame : ∀ p ∈ (events.filter (·.isNewRunning)).map (fun event => (event.seqId, event.sourceEngineId)),
      p.1 = event.seqId → p.2 = event.sourceEngineId := by
    intro p hp hpid
    obtain ⟨e, he, -, rfl⟩ := BackendState.mem_newly.1 hp
    have h₁ := (Bool.and_eq_true _ _ ▸ List.all_eq_true.1 hreports e he).2
    have h₂ := (Bool.and_eq_true _ _ ▸ List.all_eq_true.1 hreports event hevent).2
    rw [decide_eq_true_eq] at h₁ h₂
    rw [show e.seqId = event.seqId from hpid, h₂] at h₁
    exact (Option.some.inj h₁).symm
  have hsent := BackendState.freesOf_sendNewlyAppeared_once (x :=
    events.foldl BackendState.noteEvent (x.complete events))
    (BackendState.mem_newly.2 ⟨event, hevent, hisNew, rfl⟩) hsource hsame
    fun hmem => hfirst (h.unmarked _ (BackendState.mem_freed_noteEvents.1 hmem).1)
  rw [freesOf_noteEvents, h.unsent _ hfirst, hcopied, decide_eq_true hcopy, List.nil_append] at hsent
  exact hsent

/-- Nothing is sent for a sequence outside the batch. -/
theorem freesOf_unlisted {id : ℕ} (hid : ∀ event ∈ events, event.seqId ≠ id) :
    ((x.complete events).emit events).freesOf id = x.freesOf id := by
  rw [← freesOf_noteEvents x events]
  refine BackendState.freesOf_sendNewlyAppeared_skip (.inr fun p hp hpid => ?_)
  obtain ⟨event, hevent, -, rfl⟩ := BackendState.mem_newly.1 hp
  exact absurd hpid (hid event hevent)

theorem step (h : BackendInv x) (hreports : x.reports events = true)
    (hnew : ∀ event ∈ events, event.isNewRunning = decide (event.seqId ∉ x.previousRunning))
    (hguard : ∀ event ∈ events, event.isFinished = true → event.sourceEngineId ≠ "" →
      event.seqId ∈ x.scheduled →
      event.seqId ∈ x.previousRunning) : BackendInv ((x.complete events).emit events) := by
  obtain ⟨hsource, hlive, hscheduled⟩ := (x.complete events).emit_frame events
  replace hsource : ((x.complete events).emit events).source = x.source := hsource
  have hbatch : ∀ id, id ∈ ((x.complete events).emit events).scheduled ↔
      id ∈ x.scheduled ∨ ∃ event ∈ events, event.seqId = id := by
    intro id
    rw [hscheduled]
    simp [BackendState.complete]
  have hreported : ∀ event ∈ events, event.seqId ∈ x.live ∧
    x.source event.seqId = some event.sourceEngineId := by
    intro event hevent
    have := List.all_eq_true.1 hreports event hevent
    rwa [Bool.and_eq_true, decide_eq_true_eq, decide_eq_true_eq] at this
  refine ⟨fun id hid => ?_, fun id hid => ?_, fun id hid => ?_, fun id hid => ?_, fun id source hid hmigrated => ?_,
    fun id hid hlive' source hs hmigrated => ?_⟩
  · rw [hsource]
    rcases (hbatch id).1 hid with hid | ⟨event, hevent, rfl⟩
    · exact h.known id hid
    · rw [(hreported event hevent).2]
      rfl
  · refine (hbatch id).2 (.inr ?_)
    obtain ⟨event, hevent, rfl⟩ := List.mem_map.1 (List.mem_toFinset.1 hid)
    exact ⟨event, hevent, rfl⟩
  · rcases BackendState.mem_freed_emit.1 hid with hid | ⟨event, hevent, -, rfl, -⟩
    · exact (hbatch id).2 (.inl (h.unmarked id hid.1))
    · exact (hbatch _).2 (.inr ⟨event, hevent, rfl⟩)
  · have hnot := mt (hbatch id).2 hid
    push Not at hnot
    rw [freesOf_unlisted hnot.2]
    exact h.unsent id hnot.1
  -- a sequence of an earlier batch has had its free; one that is new here gets it with this batch
  · rw [hsource] at hid
    by_cases hold : id ∈ x.scheduled
    · rw [h.freesOf_scheduled hreports hnew hguard hold, h.once id source hid hmigrated, if_pos hold,
        if_pos ((hbatch id).2 (.inl hold))]
    · by_cases hevent : ∃ event ∈ events, event.seqId = id
      · rw [if_pos ((hbatch id).2 (.inr hevent))]
        obtain ⟨event, hevent, rfl⟩ := hevent
        obtain rfl : event.sourceEngineId = source := by
          rw [(hreported event hevent).2] at hid
          exact Option.some.inj hid
        exact h.freesOf_first hreports hnew hevent hold hmigrated
      · rw [if_neg fun hin => ((hbatch id).1 hin).elim hold hevent]
        push Not at hevent
        rw [freesOf_unlisted hevent]
        exact h.unsent id hold
  · -- a live sequence of the batch did not finish, so it keeps its mark or gets one
    rw [hsource] at hs
    rw [hlive] at hlive'
    obtain ⟨hwas, hunfinished⟩ := Finset.mem_sdiff.1 hlive'
    refine BackendState.mem_freed_emit.2 ?_
    by_cases hold : id ∈ x.scheduled
    · refine .inl ⟨h.marked id hold hwas source hs hmigrated, fun event hevent heid => ?_⟩
      refine Bool.eq_false_iff.2 fun hfin => hunfinished ?_
      rw [List.mem_toFinset]
      exact List.mem_map.2 ⟨event, List.mem_filter.2 ⟨hevent, hfin⟩, heid⟩
    · obtain ⟨event, hevent, rfl⟩ := ((hbatch id).1 hid).resolve_left hold
      refine .inr ⟨event, hevent, ?_, rfl, ?_⟩
      · rw [hnew event hevent]
        exact decide_eq_true fun hprev => hold (h.previous _ hprev)
      · rw [(hreported event hevent).2] at hs
        exact (Option.some.inj hs) ▸ hmigrated

end BackendInv

theorem backend_invariant : Invariant backendSystem freeGuard BackendInv where
  initial x hx := by
    cases hx
    exact ⟨fun id hid => (by cases hid), fun id hid => (by cases hid), fun id hid => (by cases hid), fun _ _ => rfl,
      fun id source hid => (by cases hid), fun id hid => (by cases hid)⟩
  next x op x' h hguard hx := by
    simp only [backendSystem, BackendState.next] at hx
    cases op with
    | add seqId source =>
      dsimp only at hx
      split at hx
      case isTrue => cases hx
      case isFalse =>
        cases hx
        have hfresh : seqId ∉ x.scheduled := fun hin => by
          have hknown := h.known seqId hin
          rw [Option.isNone_iff_eq_none.1 hguard] at hknown
          cases hknown
        have hother : ∀ id ∈ x.scheduled, Function.update x.source seqId (some source) id = x.source id := by
          intro id hid
          have hne : id ≠ seqId := fun heq => hfresh (heq ▸ hid)
          exact Function.update_of_ne hne _ _
        refine ⟨fun id hid => ?_, h.previous, h.unmarked, h.unsent, fun id source' hid hmigrated => ?_,
          fun id hid hlive source' hs hmigrated => ?_⟩
        · change (Function.update x.source seqId (some source) id).isSome = true
          rw [hother id hid]
          exact h.known id hid
        · change x.freesOf id = if id ∈ x.scheduled then _ else _
          change Function.update x.source seqId (some source) id = some source' at hid
          by_cases hin : id ∈ x.scheduled
          · rw [hother id hin] at hid
            exact h.once id source' hid hmigrated
          · rw [if_neg hin]
            exact h.unsent id hin
        · change Function.update x.source seqId (some source) id = some source' at hs
          rw [hother id hid] at hs
          have hne : id ≠ seqId := fun heq => hfresh (heq ▸ hid)
          exact h.marked id hid ((Finset.mem_insert.1 hlive).resolve_left hne) source' hs hmigrated
    | step s ids =>
      dsimp only at hx
      split at hx
      case isTrue hreports =>
        cases hx
        refine h.step hreports (fun event hevent => BackendState.events_cases hevent)
          fun event hevent hfin hsource hold => ?_
        have hpass := List.all_eq_true.1 hguard event hevent
        simpa [hfin, hsource, hold] using hpass
      case isFalse => cases hx
    | raised ids =>
      dsimp only at hx
      split at hx
      case isTrue hlive =>
        cases hx
        have hcases : ∀ id ∈ x.scheduled ∪ ids.toFinset, id ∈ x.scheduled ∨ x.source id = some "" := by
          intro id hid
          rcases Finset.mem_union.1 hid with hid | hid
          · exact .inl hid
          · have hpass := List.all_eq_true.1 hguard id (List.mem_toFinset.1 hid)
            rwa [Bool.or_eq_true, decide_eq_true_eq, decide_eq_true_eq] at hpass
        have hmigrated : ∀ id ∈ x.scheduled ∪ ids.toFinset, ∀ source, x.source id = some source →
          source ≠ "" →
            id ∈ x.scheduled := by
          intro id hid source hs hne
          refine (hcases id hid).resolve_right fun hnone => hne ?_
          rw [hnone] at hs
          exact (Option.some.inj hs).symm
        refine ⟨fun id hid => ?_, fun id hid => Finset.mem_union_left _ (h.previous id hid),
          fun id hid => Finset.mem_union_left _ (h.unmarked id hid),
          fun id hid => h.unsent id fun hin => hid (Finset.mem_union_left _ hin), fun id source hs hne => ?_,
          fun id hid hlive' source hs hne => h.marked id (hmigrated id hid source hs hne) hlive' source hs hne⟩
        · rcases hcases id hid with hid | hs
          · exact h.known id hid
          · exact Option.isSome_of_eq_some hs
        · refine (h.once id source hs hne).trans ?_
          refine if_congr ⟨fun hin => Finset.mem_union_left _ hin, fun hin =>
            hmigrated id hin source hs hne⟩ rfl rfl
      case isFalse => cases hx
    | abort ids =>
      dsimp only at hx
      split at hx
      case isTrue =>
        cases hx
        refine ⟨h.known, h.previous, fun id hid => h.unmarked id (Finset.mem_sdiff.1 hid).1, h.unsent, h.once,
          fun id hid hlive source hs hne => ?_⟩
        obtain ⟨hlive, hkept⟩ := Finset.mem_sdiff.1 hlive
        exact Finset.mem_sdiff.2 ⟨h.marked id hid hlive source hs hne, hkept⟩
      case isFalse => cases hx

/-- **Every migrated sequence that was scheduled is freed exactly once**, at its source and after its copy, along every
run within the guard. -/
theorem freed_once (x : BackendState) (hx : Reachable backendSystem freeGuard x) : FreedOnce x :=
  (backend_invariant.holds hx).once

/-! ### A sequence that is left out of one batch -/

/-- The scheduler after a step: its sequences come from engine `p`, those of `finished` are done. -/
def stepped (finished : List ℕ) : Scheduler :=
  { Scheduler.new {} with
    seqTable := fun id => some { Sequence.new id [1] {} with
      status := if id ∈ finished then .finished else .running
      migrateEngineId := "p" } }

/-- Sequence `1` is copied and decoded, sequence `2` is copied in a batch of its own, then both are decoded. -/
def copyBetween (last : Scheduler) : List BackendOp :=
  [.add 1 "p", .step (stepped []) [1], .step (stepped []) [1], .add 2 "p", .step (stepped []) [2], .step last [1, 2]]

theorem freed_once_two : ∃ x, Reachable backendSystem freeGuard x ∧ x.scheduled = {1, 2} ∧ FreedOnce x := by
  obtain ⟨x, hx, hP⟩ := Reachable.exists_of_run (T := backendSystem) (G := freeGuard)
    (P := fun x => decide (x.scheduled = {1, 2})) (s := BackendState.init) (copyBetween (stepped []))
      rfl (by decide +kernel)
  exact ⟨x, hx, of_decide_eq_true hP, freed_once x hx⟩

/-- When sequence `1` finishes in that step it is freed a second time. -/
theorem not_freed_once : ¬ ∀ x : BackendState, Reachable backendSystem always x → FreedOnce x := by
  intro h
  obtain ⟨x, hx, hP⟩ := Reachable.exists_of_run (T := backendSystem) (G := always)
    (P := fun x => decide (x.source 1 = some "p") && decide (1 ∈ x.scheduled)
      && decide (x.freesOf 1 = [⟨1, "p", true⟩, ⟨1, "p", true⟩]))
    (s := BackendState.init) (copyBetween (stepped [1])) rfl (by decide +kernel)
  simp only [Bool.and_eq_true, decide_eq_true_eq] at hP
  have honce := h x hx 1 "p" hP.1.1 (by decide)
  rw [hP.2, if_pos hP.1.2] at honce
  simp at honce

end NanoEngine
