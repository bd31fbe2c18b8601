import Mathlib.Data.List.Perm.Basic
import NanoEngine.Streams.Bundle
import NanoEngine.Streams.Main

/-!
# NanoEngine.Server.Vision — the vision slots that the backend gives back to the encoders

The part of `run_engine_backend` in `dlengine/server/engine_server.py` that collects the vision slots of a step by
encoder and sends one `FreeVisionSlots` message to each.

* `Emission`: what goes wrong between the events of a step and the last message.
* `Vision`: the slots that every request came with, those put into messages, and the messages.
* `vision_freed_once`: the slots of a request are freed once, at the latest when it ends, as long as no abort hits a
  request that still holds slots and every step that reports slots sends its messages.
-/

namespace NanoEngine

open Transition Scheduler

/-! ## The messages of a step -/

/-- `vision_free_by_encoder[encoder_engine_id].append(slot_idx)`, a dictionary in insertion order. -/
def appendSlot (encoderEngineId : String) (slotIdx : ℤ) : List (String × List ℤ) → List (String × List ℤ)
  | [] => [(encoderEngineId, [slotIdx])]
  | (id, slotIndices) :: rest =>
    if id = encoderEngineId then (id, slotIndices ++ [slotIdx]) :: rest
    else (id, slotIndices) :: appendSlot encoderEngineId slotIdx rest

/-- `vision_free_by_encoder` after the event loop. -/
def visionFreeByEncoder (events : List SequenceEvent) : List (String × List ℤ) :=
  (events.flatMap (·.visionSlots)).foldl (fun acc slot => appendSlot slot.encoderEngineId slot.slotIdx acc) []

/-- What happens after the events of a step were collected: something raises before the messages are sent, and some
encoders get none (`send_free_vision_slots` logs an error or raises). -/
structure Emission where
  raised : Bool := false
  unreachable : List String := []

def Emission.sends (em : Emission) (encoderEngineId : String) : Bool :=
  !em.raised && !em.unreachable.contains encoderEngineId

/-- The `FreeVisionSlots` messages that are sent. -/
def Emission.messages (em : Emission) (events : List SequenceEvent) : List (String × List ℤ) :=
  (visionFreeByEncoder events).filter (fun message => em.sends message.1)

/-- The slots in these messages, with the sequences that they are freed for. -/
def Emission.handed (em : Emission) (events : List SequenceEvent) : List (ℕ × VisionSlot) :=
  events.flatMap (fun event =>
    (event.visionSlots.filter (fun slot => em.sends slot.encoderEngineId)).map (fun slot => (event.seqId, slot)))

/-- The slots of a list of messages. -/
def slotsOf (messages : List (String × List ℤ)) : List (String × ℤ) :=
  messages.flatMap (fun message => message.2.map (fun slotIdx => (message.1, slotIdx)))

def VisionSlot.key (slot : VisionSlot) : String × ℤ := (slot.encoderEngineId, slot.slotIdx)

theorem slotsOf_append (messages messages' : List (String × List ℤ)) :
    slotsOf (messages ++ messages') = slotsOf messages ++ slotsOf messages' := List.flatMap_append

theorem slotsOf_appendSlot (encoderEngineId : String) (slotIdx : ℤ) (acc : List (String × List ℤ)) :
    (slotsOf (appendSlot encoderEngineId slotIdx acc)).Perm (slotsOf acc ++ [(encoderEngineId, slotIdx)]) := by
  induction acc with
  | nil => exact .refl _
  | cons message rest ih =>
    obtain ⟨id, slotIndices⟩ := message
    unfold appendSlot
    split
    case isTrue hid =>
      subst hid
      simp only [slotsOf, List.flatMap_cons, List.map_append, List.append_assoc]
      exact List.perm_append_comm.append_left _
    case isFalse =>
      simp only [slotsOf, List.flatMap_cons, List.append_assoc] at ih ⊢
      exact ih.append_left _

/-- All slots of the events are collected. -/
theorem slotsOf_visionFreeByEncoder (events : List SequenceEvent) :
    (slotsOf (visionFreeByEncoder events)).Perm ((events.flatMap (·.visionSlots)).map VisionSlot.key) := by
  have hfold : ∀ (slots : List VisionSlot) (acc : List (String × List ℤ)),
      (slotsOf (slots.foldl (fun acc slot => appendSlot slot.encoderEngineId slot.slotIdx acc) acc)).Perm
        (slotsOf acc ++ slots.map VisionSlot.key) := by
    intro slots
    induction slots with
    | nil =>
      intro acc
      rw [List.foldl_nil, List.map_nil, List.append_nil]
    | cons slot slots ih =>
      intro acc
      have hone := slotsOf_appendSlot slot.encoderEngineId slot.slotIdx acc
      rw [List.foldl_cons, List.map_cons]
      refine (ih _).trans ((hone.append_right _).trans ?_)
      rw [List.append_assoc]
      exact .refl _
  exact hfold _ []

/-- **The messages of a step free exactly the slots handed over**: each as often as it was reported. -/
theorem Emission.slotsOf_messages (em : Emission) (events : List SequenceEvent) :
    (slotsOf (em.messages events)).Perm ((em.handed events).map (fun entry => entry.2.key)) := by
  -- sending is decided per encoder, and the slots of a message are those of its encoder
  have hfilter : ∀ messages : List (String × List ℤ),
    slotsOf (messages.filter (fun message => em.sends message.1)) =
      (slotsOf messages).filter (fun slot => em.sends slot.1) := by
    intro messages
    induction messages with
    | nil => rfl
    | cons message rest ih =>
      have hcons : slotsOf (message :: rest) =
        message.2.map (fun slotIdx => (message.1, slotIdx)) ++ slotsOf rest := rfl
      rw [hcons, List.filter_append, ← ih, List.filter_cons, List.filter_map]
      cases hsends : em.sends message.1 with
      | true => simp [slotsOf, Function.comp_def, hsends]
      | false => simp [Function.comp_def, hsends]
  have hhanded : (em.handed events).map (fun entry => entry.2.key) =
      ((events.flatMap (·.visionSlots)).map VisionSlot.key).filter (fun slot => em.sends slot.1) := by
    unfold handed
    induction events with
    | nil => rfl
    | cons event events ih =>
      have hone : (event.visionSlots.map VisionSlot.key).filter (fun slot => em.sends slot.1) =
          (event.visionSlots.filter (fun slot => em.sends slot.encoderEngineId)).map VisionSlot.key := List.filter_map
      rw [List.flatMap_cons, List.map_append, ih, List.flatMap_cons, List.map_append,
        List.filter_append, hone, List.map_map]
      rfl
  unfold messages
  rw [hfilter, hhanded]
  exact (slotsOf_visionFreeByEncoder events).filter _

/-! ## The slots in the events of a step -/

/-- The slots that the events report for a sequence. -/
def reportedSlots (events : List SequenceEvent) (seqId : ℕ) : List VisionSlot :=
  (events.filter (fun event => decide (event.seqId = seqId))).flatMap (·.visionSlots)

def handedFor (handed : List (ℕ × VisionSlot)) (seqId : ℕ) : List VisionSlot :=
  (handed.filter (fun entry => decide (entry.1 = seqId))).map (·.2)

/-- When every message is sent, all reported slots are handed over. -/
theorem Emission.handedFor_eq {em : Emission} {events : List SequenceEvent} (seqId : ℕ)
    (h : ∀ event ∈ events, ∀ slot ∈ event.visionSlots, em.sends slot.encoderEngineId = true) :
    handedFor (em.handed events) seqId = reportedSlots events seqId := by
  induction events with
  | nil => rfl
  | cons event events ih =>
    rw [List.forall_mem_cons] at h
    have htail := ih h.2
    have hall : event.visionSlots.filter (fun slot => em.sends slot.encoderEngineId) = event.visionSlots :=
      List.filter_eq_self.2 h.1
    unfold handedFor reportedSlots handed at *
    rw [List.flatMap_cons, List.filter_append, List.map_append, htail, hall, List.filter_map, List.filter_cons]
    by_cases hid : event.seqId = seqId
    · simp [hid, Function.comp_def]
    · simp [hid, Function.comp_def]

namespace Scheduler

variable {s s' : Scheduler} {seqId : ℕ} {a : Sequence}

/-- The first event of a sequence reports its slots, and they are dropped. -/
theorem collectSequenceEvents_slots (track : Bool) (previous : Finset ℕ) (ids : List ℕ)
    (hdummy : seqId ∉ s.dummySeqIds) (ha : s.seqTable seqId = some a) :
    reportedSlots (collectSequenceEvents track previous ids s).1 seqId =
      (if seqId ∈ ids then a.visionSlots else []) ∧
      (collectSequenceEvents track previous ids s).2.seqTable seqId =
        some (if seqId ∈ ids then { a with visionSlots := [] } else a) := by
  induction ids generalizing s a with
  | nil => exact ⟨rfl, ha⟩
  | cons id ids ih =>
    unfold collectSequenceEvents
    by_cases hid : id = seqId
    -- its first event takes the slots; the events after it find none
    · subst hid
      have htail := ih (s := s.updateSeq id (fun seq => { seq with visionSlots := [] })) (a :=
        { a with visionSlots := [] })
        hdummy (by simp [updateSeq, ha])
      rw [if_neg hdummy, ha]
      dsimp only
      obtain ⟨hslots, htable⟩ := htail
      rw [if_pos List.mem_cons_self, if_pos List.mem_cons_self]
      refine ⟨?_, ?_⟩
      · have hrest : reportedSlots (collectSequenceEvents track previous ids
            (s.updateSeq id (fun seq => { seq with visionSlots := [] }))).1 id = [] := by
          rw [hslots]
          split <;> rfl
        unfold reportedSlots at hrest ⊢
        rw [List.filter_cons, if_pos (by simp [sequenceEvent]), List.flatMap_cons, hrest, List.append_nil]
        rfl
      · rw [htable]
        split <;> rfl
    · have hmem : seqId ∈ id :: ids ↔ seqId ∈ ids := by
        rw [List.mem_cons]
        exact or_iff_right (Ne.symm hid)
      simp only [hmem]
      split
      · exact ih hdummy ha
      · split
        · exact ih hdummy ha
        case h_2 seq hseq =>
          have htail := ih (s := s.updateSeq id (fun seq => { seq with visionSlots := [] })) (a := a) hdummy
            (by simp [updateSeq, Function.update_of_ne (Ne.symm hid), ha])
          refine ⟨?_, htail.2⟩
          have hslots := htail.1
          unfold reportedSlots at hslots ⊢
          rw [List.filter_cons, if_neg (by simpa [sequenceEvent] using hid)]
          exact hslots

/-- An event reports slots of its sequence or none. -/
theorem collectSequenceEvents_own (track : Bool) (previous : Finset ℕ) (ids : List ℕ) (s : Scheduler) :
    ∀ event ∈ (collectSequenceEvents track previous ids s).1, ∃ seq, s.seqTable event.seqId = some seq ∧
      (event.visionSlots = seq.visionSlots ∨ event.visionSlots = []) := by
  induction ids generalizing s with
  | nil => exact List.forall_mem_nil _
  | cons id ids ih =>
    unfold collectSequenceEvents
    split
    · exact ih s
    · split
      · exact ih s
      case h_2 seq hseq =>
        refine List.forall_mem_cons.2 ⟨⟨seq, hseq, .inl rfl⟩, fun event hevent => ?_⟩
        obtain ⟨b, hb, hslots⟩ := ih _ event hevent
        unfold updateSeq at hb
        dsimp only at hb
        by_cases hid : event.seqId = id
        · rw [hid, Function.update_self, hseq, Option.map_some, Option.some.injEq] at hb
          subst hb
          exact ⟨seq, hid ▸ hseq, .inr (hslots.elim (fun h => h) fun h => h)⟩
        · rw [Function.update_of_ne hid] at hb
          exact ⟨b, hb, hslots⟩

theorem recordCompleteStep_seqTable (s : Scheduler) (dpSeqIds : List (List ℕ)) (track : Bool)
    (previous : Finset ℕ) :
    (s.recordCompleteStep dpSeqIds track previous).2.seqTable =
      (collectSequenceEvents track previous dpSeqIds.flatten s).2.seqTable := by
  have hclear : ∀ (ids : List ℕ) (s : Scheduler), (ids.foldl clearFinishedMetricState s).seqTable = s.seqTable := by
    intro ids
    induction ids with
    | nil => intro s; rfl
    | cons id ids ih => intro s; exact ih _
  exact hclear _ _

variable [Xxh3]

/-- Postprocessing keeps the slots of every sequence. -/
theorem postprocessImpl_visionSlots (s : Scheduler) (groups : List (List ℕ)) (rows : List (List (List ℤ)))
    (logs : List (List (List ℚ))) :
    TableRel (fun a b : Sequence => b.visionSlots = a.visionSlots) s (s.postprocessImpl groups rows logs) := by
  have hone : ∀ (s : Scheduler) (d id : ℕ) (row : Option (List ℤ)) (logprobs : List ℚ),
      TableRel (fun a b : Sequence => b.visionSlots = a.visionSlots) s (s.postprocessSeq d id row logprobs) := by
    intro s d id row logprobs
    have hf := postprocessSeq_frame s d id row logprobs
    refine ⟨fun id' hn => ?_, fun id' a ha => ?_⟩
    · by_cases hid : id' = id
      · subst hid
        exact hf.missing hn
      · rwa [hf.others id' hid]
    · by_cases hid : id' = id
      · subst hid
        obtain ⟨b, hb, hab⟩ := postprocessSeq_entry s d id' row logprobs ha
        exact ⟨b, hb, hab.visionSlots⟩
      · exact ⟨a, by rwa [hf.others id' hid], rfl⟩
  exact postprocessGroups_induction (P := fun s' =>
    TableRel (fun a b : Sequence => b.visionSlots = a.visionSlots) s s') 0
    groups (fun s' d id row logprobs _ h =>
      h.trans (fun _ _ _ hab hbc => hbc.trans hab) (hone s' d id row logprobs)) rows
    logs ⟨fun _ hn => hn, fun _ a ha => ⟨a, ha, rfl⟩⟩

/-- What serving a batch does to the slots and the ends of the sequences: only what it lists may end. -/
structure BatchServed (listed : List ℕ) (s s' : Scheduler) : Prop where
  config : s'.config = s.config
  dummySeqIds : s'.dummySeqIds = s.dummySeqIds
  table : TableRel (fun a b : Sequence => b.visionSlots = a.visionSlots) s s'
  others : ∀ id, id ∉ listed → s'.seqTable id = s.seqTable id ∧ s'.toBeMigrated id = s.toBeMigrated id

theorem runScheduled_served {r : ScheduleResult} {s₀ s₁ : Scheduler}
    (hs : s₀.schedule = (.ok r, s₁)) (s : Scheduler)
    (rows : List (List (List ℤ))) (logs : List (List (List ℚ))) :
    BatchServed r.dpSeqIds.flatten s (s.runScheduled r rows logs) := by
  unfold runScheduled
  split
  case isTrue => exact ⟨rfl, rfl, ⟨fun _ hn => hn, fun _ a ha => ⟨a, ha, rfl⟩⟩, fun _ _ => ⟨rfl, rfl⟩⟩
  case isFalse =>
    obtain ⟨hconfig, hdummies⟩ := postprocessImpl_config s r.filteredDpGroupSeqIds rows logs
    refine ⟨hconfig, hdummies, postprocessImpl_visionSlots s _ rows logs, fun id hid => ?_⟩
    have hun := postprocessGroups_untouched 0 r.filteredDpGroupSeqIds rows logs
      (s.postprocessStart r.filteredDpGroupSeqIds)
      fun hmem => hid (schedule_filtered hs hmem)
    exact ⟨hun.entry, hun.migrating⟩

end Scheduler

/-! ## Runs -/

/-- For every id the slots that its request came with and those put into messages since it was added, the ids aborted
since they were added, and all slots and messages sent so far. -/
structure Vision where
  arrived : ℕ → Option (List VisionSlot)
  freed : ℕ → List VisionSlot
  aborted : Finset ℕ
  handed : List (ℕ × VisionSlot)
  messages : List (String × List ℤ)

namespace Vision

def init : Vision := ⟨fun _ => none, fun _ => [], ∅, [], []⟩

def add (g : Vision) (seqId : ℕ) (slots : List VisionSlot) : Vision :=
  { g with
    arrived := Function.update g.arrived seqId (some slots)
    freed := Function.update g.freed seqId []
    aborted := g.aborted.erase seqId }

/-- The messages of a step are sent. -/
def send (g : Vision) (em : Emission) (events : List SequenceEvent) : Vision :=
  { g with
    freed := fun seqId => g.freed seqId ++ handedFor (em.handed events) seqId
    handed := g.handed ++ em.handed events
    messages := g.messages ++ em.messages events }

end Vision

inductive VisionOp
  | engine (op : EngineOp) (emission : Emission)
  /-- `engine.step` raises between the schedule and the events -/
  | interrupted

section runs

variable [Xxh3]

namespace Vision

def follow (x : EngineState) (em : Emission) (g : Vision) : EngineOp → Vision
  | .addRequest request => g.add request.seqId request.visionSlots
  | .addMigrated request => g.add request.seqId []
  | .step rows logprobs => g.send em (x.report rows logprobs).1
  | .abort seqId => if (x.sched.abortImpl seqId).1 then { g with aborted := insert seqId g.aborted } else g
  | .freeMigrated _ => g
  | .setPrefixCaching _ => g

end Vision

/-- The backend process with the record of its vision slots. -/
def visionSystem (config : SchedulerConfig) : System (EngineState × Vision) VisionOp where
  initial p := p = (EngineState.init config, Vision.init)
  next
    | (x, g), .engine op em => (x.next op).map fun x' => (x', g.follow x em op)
    | (x, g), .interrupted =>
      if x.sched.hasRunnableWork then some ({ x with sched := x.sched.schedule.2 }, g) else none

/-- An abort finds no slots, every reported slot gets into a message, and no request takes the id of a sequence that
still waits to be migrated. -/
def visionGuard : EngineState × Vision → VisionOp → Bool
  | (x, _), .engine (.abort seqId) _ =>
    !(x.sched.abortImpl seqId).1 || (x.sched.seqTable seqId).all (fun seq => seq.visionSlots.isEmpty)
  | (x, _), .engine (.step rows logprobs) em =>
    (x.report rows logprobs).1.all (fun event => event.visionSlots.all (fun slot => em.sends slot.encoderEngineId))
  | (x, _), .engine (.addRequest request) _ => (x.sched.toBeMigrated request.seqId).isNone
  | _, _ => true

/-- The sequence is terminal: finished, handed over for migration, or aborted. -/
def Vision.Ended (x : EngineState) (g : Vision) (seqId : ℕ) : Prop :=
  (∃ seq, x.sched.seqTable seqId = some seq ∧ seq.hasEnded = true) ∨
    (x.sched.toBeMigrated seqId).isSome = true ∨
    seqId ∈ g.aborted

structure VisionInv (config : SchedulerConfig) (p : EngineState × Vision) : Prop where
  config : p.1.sched.config = config
  dummies : ∀ id ∈ p.1.sched.dummySeqIds, p.1.sched.isReservedId id = true
  fresh : ∀ id slots, p.2.arrived id = some slots → p.1.sched.isReservedId id = false
  slots : ∀ id slots, p.2.arrived id = some slots → ∃ seq, p.1.sched.seqTable id = some seq ∧
    (seq.visionSlots = slots ∧ p.2.freed id = [] ∨ seq.visionSlots = [] ∧ p.2.freed id = slots)
  ended : ∀ id slots, p.2.arrived id = some slots → p.2.Ended p.1 id → p.2.freed id = slots
  strangers : ∀ id seq, p.2.arrived id = none → p.1.sched.seqTable id = some seq → seq.visionSlots = []
  own : ∀ entry ∈ p.2.handed, p.2.arrived entry.1 ≠ none
  messages : (slotsOf p.2.messages).Perm (p.2.handed.map (fun entry => entry.2.key))

namespace VisionInv

variable {config : SchedulerConfig} {x : EngineState} {g : Vision}

omit [Xxh3] in
/-- What neither touches a token nor ends a sequence keeps the record. -/
theorem keepsStreams (h : VisionInv config (x, g)) {s' : Scheduler} (hk : KeepsStreams x.sched s')
    (previous live : Finset ℕ) :
    VisionInv config (⟨s', previous, live⟩, g) where
  config := hk.config.trans h.config
  dummies := fun id hid => by
    rw [isReservedId_congr hk.config]
    exact (hk.dummies id hid).elim (h.dummies id) fun hid => hid
  fresh := fun id slots hid => by
    rw [isReservedId_congr hk.config]
    exact h.fresh id slots hid
  slots := fun id slots hid => by
    obtain ⟨a, ha, hslots⟩ := h.slots id slots hid
    obtain ⟨b, hb, hab⟩ := hk.entry id (h.fresh id slots hid) a ha
    exact ⟨b, hb, by rw [hab.visionSlots]; exact hslots⟩
  ended := fun id slots hid hended => by
    refine h.ended id slots hid ?_
    rcases hended with ⟨b, hb, hended⟩ | hmig | habort
    · obtain ⟨a, ha, -⟩ := h.slots id slots hid
      obtain ⟨c, hc, hac⟩ := hk.entry id (h.fresh id slots hid) a ha
      obtain rfl := Option.some.inj (hc.symm.trans hb)
      exact .inl ⟨a, ha, hac.ended hended⟩
    · exact .inr (.inl (hk.migrating id hmig))
    · exact .inr (.inr habort)
  strangers := fun id b hid hb => by
    rcases hk.old id b hb with ⟨a, ha, hab⟩ | hnil
    · exact hab.visionSlots.trans (h.strangers id a hid ha)
    · exact hnil
  own := h.own
  messages := h.messages

omit [Xxh3] in
/-- A new sequence: it has not ended and nothing was freed for it. -/
theorem add {x' : EngineState} {seq : Sequence} (h : VisionInv config (x, g)) (hx : x.add seq = some x')
    (hnew : seq.visionSlots = [] ∨ seq.hasEnded = false ∧ (x.sched.toBeMigrated seq.seqId).isNone = true) :
    VisionInv config (x', g.add seq.seqId seq.visionSlots) := by
  unfold EngineState.add at hx
  split at hx
  case isTrue => cases hx
  case isFalse hfree =>
    simp only [Bool.or_eq_true, not_or, Bool.not_eq_true] at hfree
    cases hx
    have hadd := addSequence_spec x.sched seq
    unfold Vision.add
    refine ⟨hadd.config.trans h.config, fun id hid => ?_, fun id slots hid => ?_, fun id slots hid => ?_,
      fun id slots hid hended => ?_, fun id b hid hb => ?_, fun entry hentry => ?_, h.messages⟩
    all_goals dsimp only at *
    · rw [isReservedId_congr hadd.config]
      exact h.dummies id (hadd.dummySeqIds ▸ hid)
    · rw [isReservedId_congr hadd.config]
      by_cases hne : id = seq.seqId
      · rw [hne]
        exact hfree.2
      · rw [Function.update_of_ne hne] at hid
        exact h.fresh id slots hid
    · rw [hadd.seqTable]
      by_cases hne : id = seq.seqId
      · subst hne
        rw [Function.update_self, Option.some.injEq] at hid
        exact ⟨seq, Function.update_self _ _ _, .inl ⟨hid, Function.update_self _ _ _⟩⟩
      · rw [Function.update_of_ne hne] at hid
        rw [Function.update_of_ne hne, Function.update_of_ne hne]
        exact h.slots id slots hid
    · by_cases hne : id = seq.seqId
      · subst hne
        rw [Function.update_self, Option.some.injEq] at hid
        rw [Function.update_self, ← hid]
        rcases hnew with hnil | ⟨hstatus, hmig⟩
        · exact hnil.symm
        · rcases hended with ⟨b, hb, hended⟩ | hended | hended
          · dsimp only at hb
            rw [hadd.seqTable, Function.update_self, Option.some.injEq] at hb
            subst hb
            rw [hstatus] at hended
            cases hended
          · dsimp only at hended
            rw [hadd.toBeMigrated, Option.isNone_iff_eq_none.1 hmig] at hended
            cases hended
          · exact absurd hended (Finset.notMem_erase _ _)
      · rw [Function.update_of_ne hne] at hid ⊢
        refine h.ended id slots hid ?_
        unfold Vision.Ended at hended
        dsimp only at hended
        rw [hadd.seqTable, hadd.toBeMigrated, Function.update_of_ne hne] at hended
        exact hended.imp_right (Or.imp_right Finset.mem_of_mem_erase)
    · by_cases hne : id = seq.seqId
      · rw [hne, Function.update_self] at hid
        cases hid
      · rw [Function.update_of_ne hne] at hid
        rw [hadd.seqTable, Function.update_of_ne hne] at hb
        exact h.strangers id b hid hb
    · by_cases hne : entry.1 = seq.seqId
      · rw [hne, Function.update_self]
        exact Option.some_ne_none _
      · rw [Function.update_of_ne hne]
        exact h.own entry hentry

omit [Xxh3] in
theorem served_strangers {s : Scheduler} {listed : List ℕ} (hserved : BatchServed listed x.sched s)
    (h : VisionInv config (x, g))
    {id : ℕ} {c : Sequence} (hid : g.arrived id = none) (hc : s.seqTable id = some c) : c.visionSlots = [] := by
  cases ha : x.sched.seqTable id with
  | none =>
    rw [hserved.table.missing id ha] at hc
    cases hc
  | some a =>
    obtain ⟨b, hb, hab⟩ := hserved.table.entry id a ha
    obtain rfl := Option.some.inj (hb.symm.trans hc)
    exact hab.trans (h.strangers id a hid ha)

omit [Xxh3] in
/-- A batch is served and reported: its slots are handed over, and what ends in it is reported. -/
theorem reported {s : Scheduler} (h : VisionInv config (x, g)) (dpSeqIds : List (List ℕ))
    (hserved : BatchServed dpSeqIds.flatten x.sched s) {em : Emission} {track : Bool}
    {previous previous' live : Finset ℕ}
    (hguard : ∀ event ∈ (s.recordCompleteStep dpSeqIds track previous).1, ∀ slot ∈ event.visionSlots,
      em.sends slot.encoderEngineId = true) :
    VisionInv config (⟨(s.recordCompleteStep dpSeqIds track previous).2, previous', live⟩,
      g.send em (s.recordCompleteStep dpSeqIds track previous).1) := by
  have hf := recordCompleteStep_frame s dpSeqIds track previous
  have htable := recordCompleteStep_seqTable s dpSeqIds track previous
  have hhanded := fun id => em.handedFor_eq id hguard
  have hdummy : ∀ id slots, g.arrived id = some slots → id ∉ s.dummySeqIds := by
    intro id slots hid hmem
    have := h.dummies id (hserved.dummySeqIds ▸ hmem)
    rw [h.fresh id slots hid] at this
    cases this
  -- the slots of a request before and after the report
  have hslots : ∀ id slots, g.arrived id = some slots → ∃ a, s.seqTable id = some a ∧
      (a.visionSlots = slots ∧ g.freed id = [] ∨ a.visionSlots = [] ∧ g.freed id = slots) ∧
      handedFor (em.handed (s.recordCompleteStep dpSeqIds track previous).1) id =
        (if id ∈ dpSeqIds.flatten then a.visionSlots else []) ∧
      (s.recordCompleteStep dpSeqIds track previous).2.seqTable id =
        some (if id ∈ dpSeqIds.flatten then { a with visionSlots := [] } else a) := by
    intro id slots hid
    obtain ⟨a₀, ha₀, hcase⟩ := h.slots id slots hid
    obtain ⟨a, ha, hsame⟩ := hserved.table.entry id a₀ ha₀
    obtain ⟨hevents, hentry⟩ := collectSequenceEvents_slots track previous dpSeqIds.flatten (hdummy id slots hid) ha
    exact ⟨a, ha, by rwa [hsame], (hhanded id).trans hevents, by rwa [htable]⟩
  refine ⟨hf.config.trans (hserved.config.trans h.config), fun id hid => ?_, fun id slots hid => ?_,
    fun id slots hid => ?_,
    fun id slots hid hended => ?_, fun id b hid hb => ?_, fun entry hentry => ?_, ?_⟩
  · rw [isReservedId_congr (hf.config.trans hserved.config)]
    exact h.dummies id (hserved.dummySeqIds ▸ hf.dummySeqIds ▸ hid)
  · rw [isReservedId_congr (hf.config.trans hserved.config)]
    exact h.fresh id slots hid
  · obtain ⟨a, -, hcase, hfreed, hentry⟩ := hslots id slots hid
    unfold Vision.send
    dsimp only
    refine ⟨_, hentry, ?_⟩
    rw [hfreed]
    split
    case isTrue =>
      rcases hcase with ⟨hfull, hnone⟩ | ⟨hempty, hall⟩
      · exact .inr ⟨rfl, by rw [hnone, hfull, List.nil_append]⟩
      · exact .inr ⟨rfl, by rw [hempty, hall, List.append_nil]⟩
    case isFalse => rwa [List.append_nil]
  · obtain ⟨a, ha, hcase, hfreed, hentry⟩ := hslots id slots hid
    unfold Vision.send
    dsimp only
    rw [hfreed]
    split
    case isTrue =>
      rcases hcase with ⟨hfull, hnone⟩ | ⟨hempty, hall⟩
      · rw [hnone, hfull, List.nil_append]
      · rw [hempty, hall, List.append_nil]
    case isFalse hlisted =>
      -- it is not in the batch, so it had ended before
      rw [List.append_nil]
      refine h.ended id slots hid ?_
      obtain ⟨hsame, hmigrating⟩ := hserved.others id hlisted
      rcases hended with ⟨b, hb, hended⟩ | hmig | habort
      · dsimp only at hb
        rw [hentry, if_neg hlisted, Option.some.injEq] at hb
        exact .inl ⟨a, hsame.symm.trans ha, hb ▸ hended⟩
      · dsimp only at hmig
        rw [hf.toBeMigrated, hmigrating] at hmig
        exact .inr (.inl hmig)
      · exact .inr (.inr habort)
  · obtain ⟨c, hc, hcb⟩ : ∃ c, s.seqTable id = some c ∧ Reports c b := by
      cases hc : s.seqTable id with
      | none =>
        rw [hf.table.missing id hc] at hb
        cases hb
      | some c =>
        obtain ⟨b', hb', hcb⟩ := hf.table.entry id c hc
        exact ⟨c, rfl, Option.some.inj (hb'.symm.trans hb) ▸ hcb⟩
    have hnil := served_strangers hserved h hid hc
    obtain rfl | rfl := hcb
    · exact hnil
    · rfl
  · unfold Vision.send at hentry
    rcases List.mem_append.1 hentry with hentry | hentry
    · exact h.own entry hentry
    · obtain ⟨event, hevent, hmem⟩ := List.mem_flatMap.1 hentry
      obtain ⟨slot, hslot, rfl⟩ := List.mem_map.1 hmem
      intro hnone
      obtain ⟨seq, hseq, hown⟩ := collectSequenceEvents_own track previous dpSeqIds.flatten s event hevent
      have hnil := served_strangers hserved h hnone hseq
      have hslot := List.mem_of_mem_filter hslot
      rcases hown with hown | hown
      · rw [hown, hnil] at hslot
        cases hslot
      · rw [hown] at hslot
        cases hslot
  · unfold Vision.send
    dsimp only
    rw [slotsOf_append, List.map_append]
    exact h.messages.append (em.slotsOf_messages _)

/-- What a step reports is handed over, and what ends in it is reported. -/
theorem step (h : VisionInv config (x, g)) (rows : List (List (List ℤ)))
    (logprobs : List (List (List ℚ))) {em : Emission}
    (hguard : ∀ event ∈ (x.report rows logprobs).1, ∀ slot ∈ event.visionSlots,
      em.sends slot.encoderEngineId = true) :
    VisionInv config (x.step rows logprobs, g.send em (x.report rows logprobs).1) := by
  have hschedule := schedule_keepsStreams x.sched
  unfold EngineState.step
  unfold EngineState.report at hguard ⊢
  cases hs : x.sched.schedule with
  | mk result s =>
    rw [hs] at hschedule
    simp only [hs] at hguard ⊢
    cases result with
    | error e =>
      have hinv := h.keepsStreams hschedule x.previousRunning x.live
      simpa [Vision.send, Emission.handed, Emission.messages, visionFreeByEncoder, handedFor] using hinv
    | ok r =>
      dsimp only at hguard ⊢
      have hswap : KeepsStreams s (s.completeSwaps r) :=
        (cacheCompleteHostSwapOuts_frame s _).keepsStreams.trans (cacheCompleteHostSwapIns_frame _ _).keepsStreams
      have hinv := h.keepsStreams (hschedule.trans hswap) x.previousRunning x.live
      have hserved := runScheduled_served hs (s.completeSwaps r) rows logprobs
      generalize s.completeSwaps r = s₁ at hinv hserved hguard ⊢
      generalize s₁.runScheduled r rows logprobs = s₂ at hserved hguard ⊢
      exact hinv.reported r.dpSeqIds hserved hguard

end VisionInv

theorem visionInv_invariant (config : SchedulerConfig) :
    Invariant (visionSystem config) visionGuard (VisionInv config) where
  initial := by
    rintro p rfl
    exact ⟨rfl, fun _ hid => absurd hid (Finset.notMem_empty _), fun _ _ hid => (by cases hid),
      fun _ _ hid => (by cases hid),
      fun _ _ hid => (by cases hid), fun _ _ _ hseq => (by cases hseq), List.forall_mem_nil _, .refl _⟩
  next := by
    rintro ⟨x, g⟩ op ⟨x', g'⟩ h hguard hnext
    cases op with
    -- an interrupted step has run `schedule` only, which ends no sequence
    | interrupted =>
      simp only [visionSystem] at hnext
      split at hnext
      case isTrue =>
        cases hnext
        exact h.keepsStreams (schedule_keepsStreams x.sched) x.previousRunning x.live
      case isFalse => cases hnext
    | engine op em =>
      obtain ⟨y, hy, heq⟩ := Option.map_eq_some_iff.1 hnext
      cases heq
      cases EngineState.step_of_next hy with
      | added request hadd => exact h.add hadd (.inr ⟨rfl, hguard⟩)
      | handedOver request hover hadd => exact h.add hadd (.inl rfl)
      | stepped rows logprobs =>
        simp only [visionGuard, List.all_eq_true] at hguard
        exact h.step rows logprobs hguard
      | aborted seqId =>
        have hfollow : Vision.follow x em g (.abort seqId) =
            if (x.sched.abortImpl seqId).1 then { g with aborted := insert seqId g.aborted } else g := rfl
        rw [hfollow]
        by_cases hfound : (x.sched.abortImpl seqId).1 = true
        case neg =>
          rw [abortImpl_not_found (by simpa using hfound), if_neg hfound, if_neg hfound]
          exact h
        case pos =>
          have hab := abortImpl_found hfound
          have hk : KeepsStreams x.sched (x.sched.abortImpl seqId).2 := by
            refine .of_table hab.config hab.seqTable hab.lastStepTokenIds hab.dummySeqIds fun id hid => ?_
            rw [hab.toBeMigrated, Function.update_apply] at hid
            split at hid
            · cases hid
            · exact hid
          have hinv := h.keepsStreams hk x.previousRunning (x.live.erase seqId)
          rw [if_pos hfound, if_pos hfound]
          refine ⟨hinv.config, hinv.dummies, hinv.fresh, hinv.slots, fun id slots hid hended => ?_,
            hinv.strangers, hinv.own,
            hinv.messages⟩
          rcases hended with hended | hended | hended
          · exact hinv.ended id slots hid (.inl hended)
          · exact hinv.ended id slots hid (.inr (.inl hended))
          · rcases Finset.mem_insert.1 hended with rfl | hended
            · -- the aborted sequence holds no slots: they were freed, or it came with none
              obtain ⟨a, ha, hcase⟩ := h.slots id slots hid
              simp only [visionGuard, hfound, Bool.not_true, Bool.false_or] at hguard
              rw [show x.sched.seqTable id = some a from ha, Option.all_some, List.isEmpty_iff] at hguard
              rcases hcase with ⟨hfull, hnone⟩ | ⟨-, hall⟩
              · exact hnone.trans (hguard.symm.trans hfull)
              · exact hall
            · exact hinv.ended id slots hid (.inr (.inr hended))
      | @freed seqId hmig =>
        have hfreed := freeToBeMigrated_spec hmig
        refine ⟨hfreed.config.trans h.config, fun id hid => ?_, fun id slots hid => ?_, fun id slots hid => ?_,
          fun id slots hid hended => ?_, fun id b hid hb => ?_, h.own, h.messages⟩
        · rw [isReservedId_congr hfreed.config]
          exact h.dummies id (hfreed.dummySeqIds ▸ hid)
        · rw [isReservedId_congr hfreed.config]
          exact h.fresh id slots hid
        · obtain ⟨a, ha, hcase⟩ := h.slots id slots hid
          dsimp only
          rw [hfreed.seqTable]
          by_cases hne : id = seqId
          · subst hne
            refine ⟨{ a with status := .finished }, ?_, hcase⟩
            rw [Function.update_self]
            exact congrArg (Option.map _) ha
          · exact ⟨a, by rwa [Function.update_of_ne hne], hcase⟩
        · refine h.ended id slots hid ?_
          by_cases hne : id = seqId
          · exact .inr (.inl (hne ▸ hmig))
          · unfold Vision.Ended at hended ⊢
            dsimp only at hended
            rw [hfreed.seqTable, hfreed.toBeMigrated, Function.update_of_ne hne, Function.update_of_ne hne] at hended
            exact hended
        · dsimp only at hb
          rw [hfreed.seqTable] at hb
          by_cases hne : id = seqId
          · subst hne
            rw [Function.update_self] at hb
            obtain ⟨a, ha, rfl⟩ := Option.map_eq_some_iff.1 hb
            exact h.strangers id a hid ha
          · rw [Function.update_of_ne hne] at hb
            exact h.strangers id b hid hb
      | toggled enabled =>
        have hk : KeepsStreams x.sched (x.sched.setPrefixCachingEnabled enabled) :=
          .of_table rfl rfl rfl rfl fun _ h => h
        exact h.keepsStreams hk x.previousRunning x.live

/-- **Vision slots are freed exactly once**: in every run within the guard the messages free for a request either none
of the slots that it came with or all of them once, all once it has ended, and nothing for what is no request. -/
theorem vision_freed_once (config : SchedulerConfig) (p : EngineState × Vision)
    (hp : Reachable (visionSystem config) visionGuard p) :
    (∀ seqId slots, p.2.arrived seqId = some slots → (p.2.freed seqId = [] ∨ p.2.freed seqId = slots) ∧
      (p.2.Ended p.1 seqId → p.2.freed seqId = slots)) ∧
    (∀ entry ∈ p.2.handed, p.2.arrived entry.1 ≠ none) ∧
    (slotsOf p.2.messages).Perm (p.2.handed.map (fun entry => entry.2.key)) := by
  have h := (visionInv_invariant config).holds hp
  refine ⟨fun seqId slots hid => ⟨?_, h.ended seqId slots hid⟩, h.own, h.messages⟩
  obtain ⟨seq, -, hcase⟩ := h.slots seqId slots hid
  exact hcase.imp And.right And.right

end runs

/-! ## Evaluated runs -/

section evaluated

attribute [local instance] codeHash

def visionConfig : SchedulerConfig where
  maxNumSeqs := 8
  maxNumBatchedTokens := 64
  maxModelLen := 100
  eosIds := [9]
  numKvcacheBlocks := 8
  kvcacheBlockSize := 4

/-- Two slots of one encoder and one of another. -/
def pictures : List VisionSlot := [⟨"enc-0", 3, 1, 8, 4⟩, ⟨"enc-1", 0, 1, 8, 4⟩, ⟨"enc-0", 5, 1, 8, 4⟩]

def pictureRequest : VisionOp :=
  .engine (.addRequest { seqId := 0, promptTokenIds := [1, 2, 3], visionSlots := pictures }) {}

/-- The first step reports the slots, the second one ends the request. -/
theorem vision_freed_once_pictures : ∃ p, Reachable (visionSystem visionConfig) visionGuard p ∧
    p.2.freed 0 = pictures ∧
    p.2.messages = [("enc-0", [3, 5]), ("enc-1", [0])] := by
  obtain ⟨p, hp, hP⟩ := Reachable.exists_of_run (T := visionSystem visionConfig) (G := visionGuard)
    (P := fun p => decide (p.2.arrived 0 = some pictures) && (p.1.sched.seqTable 0).any (·.hasEnded) &&
      decide (p.2.messages = [("enc-0", [3, 5]), ("enc-1", [0])]))
    (s := (EngineState.init visionConfig, Vision.init))
    [pictureRequest, .engine (.step [[[7]]] []) {}, .engine (.step [[[9]]] []) {}] rfl (by decide +kernel)
  simp only [Bool.and_eq_true, decide_eq_true_eq, Option.any_eq_true] at hP
  obtain ⟨⟨harrived, hended⟩, hmessages⟩ := hP
  exact ⟨p, hp, ((vision_freed_once visionConfig p hp).1 0 pictures harrived).2 (.inl hended), hmessages⟩

/-- A request that is aborted while it waits keeps its slots for ever. -/
theorem not_vision_freed_once : ¬ ∀ (config : SchedulerConfig) (p : EngineState × Vision),
    Reachable (visionSystem config) always p →
      ∀ seqId slots, p.2.arrived seqId = some slots → p.2.Ended p.1 seqId →
      p.2.freed seqId = slots := by
  intro h
  obtain ⟨p, hp, hP⟩ := Reachable.exists_of_run (T := visionSystem visionConfig) (G := always)
    (P := fun p => decide (p.2.arrived 0 = some pictures) && decide (0 ∈ p.2.aborted) && decide (p.2.freed 0 = []))
    (s := (EngineState.init visionConfig, Vision.init)) [pictureRequest, .engine (.abort 0) {}] rfl (by decide +kernel)
  simp only [Bool.and_eq_true, decide_eq_true_eq] at hP
  obtain ⟨⟨harrived, haborted⟩, hnone⟩ := hP
  have hfreed := h visionConfig p hp 0 pictures harrived (.inr (.inr haborted))
  rw [hnone] at hfreed
  cases hfreed

end evaluated

end NanoEngine
