import NanoEngine.Lib.Transition
import NanoEngine.Proto.Classify

/-!
# NanoEngine.Server.FrontEnd — the queues of the requests at the front end

`submit`, `abort`, `_recv_loop`, `_push`, `_handle_stepout` and `_handle_migration` of `ZmqEngineWorker` in
`dlengine/server/zmq_engine_client.py`, with `Packet`, `StepOut` and `RequestMigrate.metadata` of
`rust/src/proto/metadata.rs`.

* A request object is the number of its `submit`: it keeps its queue also when its id is no longer active.
* Packets arrive as bytes.  One that cannot be read is logged; those with another action touch no queue.
* `lifetime seqId ops`: the calls and packets after a `submit`, up to the one that ends the request.
* `delivered_iff`: the queue of a request holds the tokens of the stepouts of its lifetime, exactly if none is empty.
-/

namespace NanoEngine.FrontEnd

open Codec Requests Transition

/-! ## Packets -/

structure WirePacket where
  action : I32
  payload : Vec UInt8

structure WireStepOut where
  seqId : U64
  tokenIds : Vec I32
  status : I32

def byte : Codec UInt8 := (fixint 1).iso (fun b => UInt8.ofBitVec b) UInt8.toBitVec fun _ => rfl

def packet : Codec WirePacket :=
  (pair i32 (list byte)).iso (fun ⟨a, b⟩ => ⟨a, b⟩) (fun p => (p.action, p.payload)) fun _ => rfl

def stepOut : Codec WireStepOut :=
  (pair u64 (pair (list i32) i32)).iso (fun ⟨a, b, c⟩ => ⟨a, b, c⟩)
    (fun s => (s.seqId, s.tokenIds, s.status)) fun _ => rfl

def actionStepout : I32 := 0
def actionMigration : I32 := 1

/-- `SequenceStatus.FINISHED`. -/
def finished : I32 := 2

/-- `StepOut.token_id`. -/
def WireStepOut.tokenId (step : WireStepOut) : I32 := step.tokenIds.1.getLast?.getD 0

/-- `RequestMigrate.metadata`: the id and the first token after the prompt. -/
def metadata (payload : Bytes) : Option (U64 × I32) :=
  (decodeBinary requestMigrate payload).map fun request =>
    (request.seqId,
      (request.tokenIds.1.drop (max request.numPromptTokens.toInt 0).toNat).getLast?.getD request.lastToken)

/-- The payload of a packet with the action. -/
def payloadOf (action : I32) (data : Bytes) : Option Bytes :=
  (decodeBinary packet data).bind fun p => if p.action = action then some p.payload.1 else none

/-- The stepout that a packet holds. -/
def stepoutOf (data : Bytes) : Option WireStepOut := (payloadOf actionStepout data).bind (decodeBinary stepOut)

/-- The migration that a packet holds: its payload, the id and the first token. -/
def migrationOf (data : Bytes) : Option (Bytes × U64 × I32) :=
  (payloadOf actionMigration data).bind fun payload => (metadata payload).map fun m => (payload, m)

/-! ## The worker -/

inductive QueueItem
  | tokens (ids : List I32)
  | finish
  | migration (payload : Bytes) (firstToken : I32) (seqId : U64)
  /-- `None` -/
  | terminator
  deriving DecidableEq

inductive AddPayload
  | requestIn (request : RequestIn)
  /-- `migration_payload` of a request that a prefill engine hands over -/
  | requestMigrate (payload : Bytes)

structure Request where
  seqId : U64
  payload : AddPayload

inductive Outgoing
  | add (payload : AddPayload)
  | abort (seqIds : List U64)

structure Worker where
  requests : List Request
  queues : ℕ → List QueueItem
  /-- `_active` -/
  active : U64 → Option ℕ
  /-- `_outbox` -/
  outbox : List Outgoing

inductive WorkerOp
  | submit (req : Request)
  | abort (seqId : U64)
  | receive (data : Bytes)

namespace Worker

def init : Worker := ⟨[], fun _ => [], fun _ => none, []⟩

/-- `_push`. -/
def push (w : Worker) (req : ℕ) (item : QueueItem) : Worker :=
  { w with queues := Function.update w.queues req (w.queues req ++ [item]) }

/-- `self._active.pop(seq_id, None)`. -/
def pop (w : Worker) (seqId : U64) : Worker := { w with active := Function.update w.active seqId none }

def submit (w : Worker) (req : Request) : Worker where
  requests := w.requests ++ [req]
  queues := w.queues
  active := Function.update w.active req.seqId (some w.requests.length)
  outbox := w.outbox ++ [.add req.payload]

def abort (w : Worker) (seqId : U64) : Worker :=
  let w := match w.active seqId with
    | none => w
    | some req => ((w.pop seqId).push req .finish).push req .terminator
  { w with outbox := w.outbox ++ [.abort [seqId]] }

/-- `_handle_stepout`. -/
def handleStepout (w : Worker) (step : WireStepOut) : Worker :=
  match w.active step.seqId with
  | none => w
  | some req =>
    -- `step.token_ids or [step.token_id]`
    let tokens := if step.tokenIds.1 = [] then [step.tokenId] else step.tokenIds.1
    let w := if tokens = [] then w else w.push req (.tokens tokens)
    if step.status = finished then ((w.push req .finish).push req .terminator).pop step.seqId else w

/-- `_handle_migration`. -/
def handleMigration (w : Worker) (payload : Bytes) (seqId : U64) (firstToken : I32) : Worker :=
  match w.active seqId with
  | none => w
  | some req => ((w.push req (.migration payload firstToken seqId)).push req .terminator).pop seqId

/-- One packet of `_recv_loop`. -/
def receive (w : Worker) (data : Bytes) : Worker :=
  match stepoutOf data with
  | some step => w.handleStepout step
  | none =>
    match migrationOf data with
    | some (payload, seqId, firstToken) => w.handleMigration payload seqId firstToken
    | none => w

/-- Live ids are distinct. -/
def next (w : Worker) : WorkerOp → Option Worker
  | .submit req => if (w.active req.seqId).isSome then none else some (w.submit req)
  | .abort seqId => some (w.abort seqId)
  | .receive data => some (w.receive data)

end Worker

def workerSystem : System Worker WorkerOp where
  initial w := w = Worker.init
  next := Worker.next

/-! ## What a request should get -/

/-- The id that a call or packet is about. -/
def WorkerOp.about : WorkerOp → Option U64
  | .submit req => some req.seqId
  | .abort seqId => some seqId
  | .receive data =>
    match stepoutOf data with
    | some step => some step.seqId
    | none => (migrationOf data).map fun m => m.2.1

/-- The stepout for an id that arrives with it. -/
def WorkerOp.stepoutFor (seqId : U64) : WorkerOp → Option WireStepOut
  | .receive data => (stepoutOf data).filter fun step => decide (step.seqId = seqId)
  | _ => none

/-- It ends the request: an abort, a stepout with status `FINISHED`, a migration. -/
def WorkerOp.ends (seqId : U64) : WorkerOp → Bool
  | .submit _ => false
  | .abort id => decide (id = seqId)
  | .receive data =>
    match stepoutOf data with
    | some step => decide (step.seqId = seqId) && decide (step.status = finished)
    | none => (migrationOf data).any fun m => decide (m.2.1 = seqId)

/-- Up to the end of the request. -/
def lifetime (seqId : U64) : List WorkerOp → List WorkerOp
  | [] => []
  | op :: ops => if op.ends seqId then [op] else op :: lifetime seqId ops

/-- The stepouts that a request receives. -/
def stepouts (seqId : U64) (ops : List WorkerOp) : List WireStepOut :=
  (lifetime seqId ops).filterMap (WorkerOp.stepoutFor seqId)

/-- The tokens put into a queue. -/
def tokensOf (queue : List QueueItem) : List I32 :=
  queue.flatMap fun item => match item with
    | .tokens ids => ids
    | _ => []

/-- The number of requests submitted. -/
def submits (ops : List WorkerOp) : ℕ := ops.countP fun op => match op with
  | .submit _ => true
  | _ => false

/-- The queue of a request after the run `before ++ .submit req :: after`. -/
structure Delivered (before : List WorkerOp) (req : Request) (after : List WorkerOp)
    (queue : List QueueItem) : Prop where
  tokens : tokensOf queue = (stepouts req.seqId after).flatMap fun step => step.tokenIds.1
  once : queue.count .terminator ≤ 1
  last : ∀ q q', queue = q ++ .terminator :: q' → q' = []
  unaffected : ∀ ops op rest, after = ops ++ op :: rest → op.about ≠ some req.seqId →
    ∀ w w', run workerSystem always (before ++ .submit req :: ops) Worker.init = some w →
      workerSystem.next w op = some w' →
      w'.queues (submits before) = w.queues (submits before)

/-! ## One call -/

/-- What a call or packet puts into the queue of the active request with the id. -/
def WorkerOp.pushes (seqId : U64) (op : WorkerOp) : List QueueItem :=
  match op with
  | .submit _ => []
  | .abort id => if id = seqId then [.finish, .terminator] else []
  | .receive data =>
    match stepoutOf data with
    | some step =>
      if step.seqId = seqId then
        .tokens (if step.tokenIds.1 = [] then [step.tokenId] else step.tokenIds.1) ::
          (if step.status = finished then [.finish, .terminator] else [])
      else []
    | none =>
      match migrationOf data with
      | some (payload, id, firstToken) => if id = seqId then [.migration payload firstToken id, .terminator] else []
      | none => []

namespace Worker

variable {w w' : Worker} {op : WorkerOp} {k : ℕ} {seqId : U64}

/-- A request is active under its own id, and those not yet submitted have got nothing. -/
structure Owned (w : Worker) : Prop where
  owner : ∀ id k, w.active id = some k → ∃ req, w.requests[k]? = some req ∧ req.seqId = id
  fresh : ∀ k, w.requests.length ≤ k → w.queues k = []

@[simp] theorem push_active (w : Worker) (req : ℕ) (item : QueueItem) : (w.push req item).active = w.active := rfl

@[simp] theorem push_requests (w : Worker) (req : ℕ) (item : QueueItem) :
    (w.push req item).requests = w.requests := rfl

@[simp] theorem pop_queues (w : Worker) (id : U64) : (w.pop id).queues = w.queues := rfl

@[simp] theorem pop_requests (w : Worker) (id : U64) : (w.pop id).requests = w.requests := rfl

theorem push_queues_self (w : Worker) (req : ℕ) (item : QueueItem) :
    (w.push req item).queues req = w.queues req ++ [item] :=
  Function.update_self _ _ _

theorem push_queues_of_ne (w : Worker) {req : ℕ} (item : QueueItem) (h : k ≠ req) :
    (w.push req item).queues k = w.queues k :=
  Function.update_of_ne h _ _

theorem pop_active_self (w : Worker) (id : U64) : (w.pop id).active id = none := Function.update_self _ _ _

theorem pop_active_of_ne (w : Worker) {id : U64} (h : seqId ≠ id) : (w.pop id).active seqId = w.active seqId :=
  Function.update_of_ne h _ _

/-- What a call or packet does to the worker: it adds a request, or it serves the request that is active under an id. -/
inductive Effect (w : Worker) (op : WorkerOp) : Worker → Prop
  | submitted (req : Request) (hop : op = .submit req) (hnew : w.active req.seqId = none) : Effect w op (w.submit req)
  | ignored {w' : Worker} (requests : w'.requests = w.requests) (queues : w'.queues = w.queues)
    (active : w'.active = w.active)
    (hnone : ∀ id, w.active id = none ∨ op.pushes id = [] ∧ op.ends id = false) : Effect w op w'
  | served {w' : Worker} (id : U64) (k : ℕ) (habout : op.about = some id) (hactive : w.active id = some k)
    (requests : w'.requests = w.requests) (queue : w'.queues k = w.queues k ++ op.pushes id)
    (others : ∀ j, j ≠ k → w'.queues j = w.queues j)
    (active : w'.active = if op.ends id then Function.update w.active id none else w.active)
    (hnone : ∀ id', id' ≠ id → op.pushes id' = [] ∧ op.ends id' = false) : Effect w op w'

theorem abort_effect (w : Worker) (id : U64) : Effect w (.abort id) (w.abort id) := by
  have hother : ∀ id', id' ≠ id → (WorkerOp.abort id).pushes id' = [] ∧
    (WorkerOp.abort id).ends id' = false := by
    intro id' hne
    simp [WorkerOp.pushes, WorkerOp.ends, Ne.symm hne]
  unfold abort
  cases hactive : w.active id with
  | none =>
    refine .ignored rfl rfl rfl fun id' => ?_
    by_cases hid : id' = id
    · exact Or.inl (hid ▸ hactive)
    · exact Or.inr (hother id' hid)
  | some k =>
    refine .served id k rfl hactive rfl ?_ (fun j hj => ?_) ?_ hother
    · show (((w.pop id).push k .finish).push k .terminator).queues k = _
      rw [push_queues_self, push_queues_self, pop_queues, List.append_assoc]
      simp [WorkerOp.pushes]
    · show (((w.pop id).push k .finish).push k .terminator).queues j = _
      rw [push_queues_of_ne _ _ hj, push_queues_of_ne _ _ hj, pop_queues]
    · simp [WorkerOp.ends, pop]

theorem handleStepout_effect (w : Worker) {data : Bytes} {step : WireStepOut} (h : stepoutOf data = some step) :
    Effect w (.receive data) (w.handleStepout step) := by
  have hpushes : ∀ id, (WorkerOp.receive data).pushes id = if step.seqId = id then
      .tokens (if step.tokenIds.1 = [] then [step.tokenId] else step.tokenIds.1) ::
        (if step.status = finished then [.finish, .terminator] else []) else [] := by
    intro id
    simp only [WorkerOp.pushes, h]
  have hends : ∀ id, (WorkerOp.receive data).ends id =
    (decide (step.seqId = id) && decide (step.status = finished)) := by
    intro id
    simp only [WorkerOp.ends, h]
  have hother : ∀ id', id' ≠ step.seqId → (WorkerOp.receive data).pushes id' = [] ∧
    (WorkerOp.receive data).ends id' = false := by
    intro id' hne
    rw [hpushes, hends, if_neg (Ne.symm hne), decide_eq_false (Ne.symm hne)]
    exact ⟨rfl, rfl⟩
  have habout : (WorkerOp.receive data).about = some step.seqId := by
    simp only [WorkerOp.about, h]
  unfold handleStepout
  cases hactive : w.active step.seqId with
  | none =>
    refine .ignored rfl rfl rfl fun id' => ?_
    by_cases hid : id' = step.seqId
    · exact Or.inl (hid ▸ hactive)
    · exact Or.inr (hother id' hid)
  | some k =>
    -- the list of tokens is never empty
    have hne : (if step.tokenIds.1 = [] then [step.tokenId] else step.tokenIds.1) ≠ [] := by
      split
      · exact List.cons_ne_nil _ _
      · assumption
    dsimp only
    rw [if_neg hne]
    by_cases hstatus : step.status = finished
    · rw [if_pos hstatus]
      refine .served step.seqId k habout hactive rfl ?_ (fun j hj => ?_) ?_ hother
      · rw [hpushes, if_pos rfl, if_pos hstatus, pop_queues, push_queues_self, push_queues_self, push_queues_self]
        simp
      · rw [pop_queues, push_queues_of_ne _ _ hj, push_queues_of_ne _ _ hj, push_queues_of_ne _ _ hj]
      · rw [hends, decide_eq_true rfl, decide_eq_true hstatus]
        rfl
    · rw [if_neg hstatus]
      refine .served step.seqId k habout hactive rfl ?_ (fun j hj => push_queues_of_ne _ _ hj) ?_ hother
      · rw [hpushes, if_pos rfl, if_neg hstatus, push_queues_self]
      · rw [hends, decide_eq_false hstatus, Bool.and_false]
        rfl

theorem handleMigration_effect (w : Worker) {data payload : Bytes} {id : U64} {firstToken : I32}
    (h : stepoutOf data = none) (hm : migrationOf data = some (payload, id, firstToken)) :
    Effect w (.receive data) (w.handleMigration payload id firstToken) := by
  have hpushes : ∀ id', (WorkerOp.receive data).pushes id' =
      if id = id' then [.migration payload firstToken id, .terminator] else [] := by
    intro id'
    simp only [WorkerOp.pushes, h, hm]
  have hends : ∀ id', (WorkerOp.receive data).ends id' = decide (id = id') := by
    intro id'
    simp only [WorkerOp.ends, h, hm]
    rfl
  -- a migration message is about one id and no other
  have hother : ∀ id', id' ≠ id → (WorkerOp.receive data).pushes id' = [] ∧
    (WorkerOp.receive data).ends id' = false := by
    intro id' hne
    rw [hpushes, hends, if_neg (Ne.symm hne), decide_eq_false (Ne.symm hne)]
    exact ⟨rfl, rfl⟩
  have habout : (WorkerOp.receive data).about = some id := by
    simp only [WorkerOp.about, h, hm]
    rfl
  unfold handleMigration
  cases hactive : w.active id with
  | none =>
    refine .ignored rfl rfl rfl fun id' => ?_
    by_cases hid : id' = id
    · exact Or.inl (hid ▸ hactive)
    · exact Or.inr (hother id' hid)
  | some k =>
    refine .served id k habout hactive rfl ?_ (fun j hj => ?_) ?_ hother
    · rw [hpushes, if_pos rfl, pop_queues, push_queues_self, push_queues_self, List.append_assoc]
      rfl
    · rw [pop_queues, push_queues_of_ne _ _ hj, push_queues_of_ne _ _ hj]
    · rw [hends, decide_eq_true rfl]
      rfl

theorem next_effect (h : w.next op = some w') : Effect w op w' := by
  cases op with
  | submit req =>
    rw [next] at h
    split at h
    case isTrue => cases h
    case isFalse hnew =>
      cases h
      exact .submitted req rfl (Option.not_isSome_iff_eq_none.1 hnew)
  | abort id =>
    cases h
    exact abort_effect w id
  | receive data =>
    cases h
    unfold receive
    cases hstep : stepoutOf data with
    | some step => exact handleStepout_effect w hstep
    | none =>
      cases hmigration : migrationOf data with
      | some m => exact handleMigration_effect w hstep hmigration
      | none =>
        refine .ignored rfl rfl rfl fun id => Or.inr ?_
        simp [WorkerOp.pushes, WorkerOp.ends, hstep, hmigration]

theorem Owned.next (h : w.Owned) (hnext : w.next op = some w') : w'.Owned := by
  cases next_effect hnext with
  | submitted req hop hnew =>
    refine ⟨fun id k hk => ?_, fun k hk => h.fresh k ?_⟩
    · by_cases hid : id = req.seqId
      · subst hid
        rw [show (w.submit req).active req.seqId = some w.requests.length from Function.update_self _ _ _] at hk
        cases hk
        exact ⟨req, List.getElem?_concat_length, rfl⟩
      · rw [show (w.submit req).active id = w.active id from Function.update_of_ne hid _ _] at hk
        obtain ⟨r, hr, hrid⟩ := h.owner id k hk
        exact ⟨r, (List.getElem?_append_left (List.getElem?_eq_some_iff.1 hr).1).trans hr, hrid⟩
    · rw [show (w.submit req).requests = w.requests ++ [req] from rfl, List.length_append] at hk
      exact Nat.le_of_succ_le hk
  | ignored hrequests hqueues hactive _ =>
    refine ⟨fun id k hk => ?_, fun k hk => ?_⟩
    · rw [hactive] at hk
      rw [hrequests]
      exact h.owner id k hk
    · rw [hqueues]
      exact h.fresh k (hrequests ▸ hk)
  -- an active request is older than the new ones, so its queue is not a fresh one
  | served id j _ hj hrequests _ hothers hactive _ =>
    refine ⟨fun id' k hk => ?_, fun k hk => ?_⟩
    · rw [hrequests]
      refine h.owner id' k ?_
      rw [hactive] at hk
      split at hk
      case isTrue =>
        by_cases hid : id' = id
        · rw [hid, Function.update_self] at hk
          cases hk
        · rwa [Function.update_of_ne hid] at hk
      case isFalse => exact hk
    · rw [hrequests] at hk
      obtain ⟨r, hr, -⟩ := h.owner id j hj
      have hlt := (List.getElem?_eq_some_iff.1 hr).1
      rw [hothers k (by omega), h.fresh k hk]

/-- While a request is active it gets what is pushed for its id. -/
theorem step_active (h : w.Owned) (hactive : w.active seqId = some k) (hnext : w.next op = some w') :
    w'.queues k = w.queues k ++ op.pushes seqId ∧ w'.active seqId = if op.ends seqId then none else some k := by
  cases next_effect hnext with
  | submitted req hop hnew =>
    have hne : seqId ≠ req.seqId := by
      rintro rfl
      rw [hnew] at hactive
      cases hactive
    rw [hop]
    refine ⟨(List.append_nil _).symm, ?_⟩
    exact (Function.update_of_ne hne _ _).trans hactive
  | ignored _ hqueues hsame hnone =>
    rcases hnone seqId with hnot | ⟨hpushes, hends⟩
    · rw [hactive] at hnot
      cases hnot
    · rw [hqueues, hsame, hpushes, hends, List.append_nil]
      exact ⟨rfl, hactive⟩
  | served id j _ hj _ hqueue hothers hsame hnone =>
    by_cases hid : id = seqId
    · subst hid
      obtain rfl : j = k := Option.some.inj (hj.symm.trans hactive)
      refine ⟨hqueue, ?_⟩
      rw [hsame]
      split
      case isTrue => exact Function.update_self _ _ _
      case isFalse => exact hactive
    · -- the request belongs to one id only
      have hkj : k ≠ j := by
        rintro rfl
        obtain ⟨r, hr, hrid⟩ := h.owner id k hj
        obtain ⟨r', hr', hrid'⟩ := h.owner seqId k hactive
        rw [hr] at hr'
        cases hr'
        exact hid (hrid.symm.trans hrid')
      obtain ⟨hpushes, hends⟩ := hnone seqId (Ne.symm hid)
      rw [hothers k hkj, hpushes, hends, List.append_nil, hsame]
      refine ⟨rfl, ?_⟩
      split
      case isTrue => exact (Function.update_of_ne (Ne.symm hid) _ _).trans hactive
      case isFalse => exact hactive

/-- The request with the number has ended. -/
structure Ended (w : Worker) (k : ℕ) (req : Request) : Prop where
  request : w.requests[k]? = some req
  inactive : w.active req.seqId ≠ some k

/-- What a request has got when it ends stays as it is. -/
theorem Ended.step {req : Request} (h : w.Ended k req) (howned : w.Owned) (hnext : w.next op = some w') :
    w'.Ended k req ∧ w'.queues k = w.queues k := by
  have hlt : k < w.requests.length := (List.getElem?_eq_some_iff.1 h.request).1
  cases next_effect hnext with
  | submitted r _ _ =>
    refine ⟨⟨(List.getElem?_append_left hlt).trans h.request, ?_⟩, rfl⟩
    intro hk
    by_cases hid : req.seqId = r.seqId
    · rw [show (w.submit r).active req.seqId = some w.requests.length by
        rw [hid]; exact Function.update_self _ _ _] at hk
      cases hk
      exact Nat.lt_irrefl _ hlt
    · exact h.inactive ((Function.update_of_ne hid _ _).symm.trans hk)
  | ignored hrequests hqueues hsame _ =>
    exact ⟨⟨hrequests ▸ h.request, hsame ▸ h.inactive⟩, congrFun hqueues k⟩
  | served id j _ hj hrequests _ hothers hsame _ =>
    -- a message for the id of an ended request is for a later request of that id
    have hkj : k ≠ j := by
      rintro rfl
      obtain ⟨r, hr, hrid⟩ := howned.owner id k hj
      rw [h.request] at hr
      cases hr
      exact h.inactive (hrid.symm ▸ hj)
    refine ⟨⟨hrequests ▸ h.request, fun hk => h.inactive ?_⟩, hothers k hkj⟩
    rw [hsame] at hk
    split at hk
    case isTrue =>
      by_cases hid : req.seqId = id
      · rw [hid, Function.update_self] at hk
        cases hk
      · rwa [Function.update_of_ne hid] at hk
    case isFalse => exact hk

/-! ## A run -/

theorem Owned.run {ops : List WorkerOp} (h : w.Owned) (hrun : run workerSystem always ops w = some w') : w'.Owned := by
  induction ops generalizing w with
  | nil =>
    cases hrun
    exact h
  | cons op ops ih =>
    obtain ⟨w₁, hnext, hrun⟩ := Option.bind_eq_some_iff.1 hrun
    exact ih (h.next hnext) hrun

theorem Ended.run {req : Request} {ops : List WorkerOp} (h : w.Ended k req) (howned : w.Owned)
    (hrun : run workerSystem always ops w = some w') : w'.Ended k req ∧ w'.queues k = w.queues k := by
  induction ops generalizing w with
  | nil =>
    cases hrun
    exact ⟨h, rfl⟩
  | cons op ops ih =>
    obtain ⟨w₁, hnext, hrun⟩ := Option.bind_eq_some_iff.1 hrun
    obtain ⟨hended, hqueue⟩ := h.step howned hnext
    obtain ⟨hended', hqueue'⟩ := ih hended (howned.next hnext) hrun
    exact ⟨hended', hqueue'.trans hqueue⟩

theorem next_requests (hnext : w.next op = some w') : w.requests <+: w'.requests := by
  cases next_effect hnext with
  | submitted req _ _ => exact List.prefix_append _ _
  | ignored hrequests _ _ _ => exact hrequests ▸ List.prefix_rfl
  | served _ _ _ _ hrequests _ _ _ _ => exact hrequests ▸ List.prefix_rfl

/-- A request gets what is pushed for its id during its lifetime. -/
theorem run_active {req : Request} {ops : List WorkerOp} (h : w.Owned) (hreq : w.requests[k]? = some req)
    (hactive : w.active req.seqId = some k) (hrun : run workerSystem always ops w = some w') :
    w'.queues k = w.queues k ++ (lifetime req.seqId ops).flatMap (WorkerOp.pushes req.seqId) := by
  induction ops generalizing w with
  | nil =>
    cases hrun
    exact (List.append_nil _).symm
  | cons op ops ih =>
    obtain ⟨w₁, hnext, hrun⟩ := Option.bind_eq_some_iff.1 hrun
    obtain ⟨hqueue, hactive₁⟩ := step_active h hactive hnext
    have hreq₁ : w₁.requests[k]? = some req := by
      obtain ⟨rest, hrest⟩ := next_requests hnext
      rw [← hrest, List.getElem?_append_left (List.getElem?_eq_some_iff.1 hreq).1, hreq]
    rw [lifetime]
    split
    case isTrue hends =>
      rw [if_pos hends] at hactive₁
      have hended : w₁.Ended k req := ⟨hreq₁, by rw [hactive₁]; nofun⟩
      rw [(hended.run (h.next hnext) hrun).2, hqueue, List.flatMap_singleton]
    case isFalse hends =>
      rw [if_neg hends] at hactive₁
      rw [ih (h.next hnext) hreq₁ hactive₁ hrun, hqueue, List.append_assoc, List.flatMap_cons]

theorem init_owned : init.Owned := ⟨(fun _ _ hk => by cases hk), fun _ _ => rfl⟩

/-- Only a `submit` adds a request. -/
theorem requests_eq (hop : ∀ req, op ≠ .submit req) (hnext : w.next op = some w') : w'.requests = w.requests := by
  cases next_effect hnext with
  | submitted req h _ => exact absurd h (hop req)
  | ignored hrequests _ _ _ => exact hrequests
  | served _ _ _ _ hrequests _ _ _ _ => exact hrequests

theorem run_requests {ops : List WorkerOp} (hrun : run workerSystem always ops w = some w') :
    w'.requests.length = w.requests.length + submits ops := by
  induction ops generalizing w with
  | nil =>
    cases hrun
    rfl
  | cons op ops ih =>
    obtain ⟨w₁, hnext, hrun⟩ := Option.bind_eq_some_iff.1 hrun
    rw [ih hrun]
    cases op with
    | submit req =>
      have hrequests : w₁.requests = w.requests ++ [req] := by
        rw [show workerSystem.next w (.submit req) = w.next (.submit req) from rfl, next] at hnext
        split at hnext
        case isTrue => cases hnext
        case isFalse =>
          cases hnext
          rfl
      rw [hrequests, List.length_append, submits, submits, List.countP_cons_of_pos rfl, List.length_singleton]
      omega
    | abort id =>
      have hrequests : w₁.requests = w.requests :=
        requests_eq (fun _ h => by cases h) (show w.next (.abort id) = some w₁ from hnext)
      rw [hrequests]
      rfl
    | receive data =>
      have hrequests : w₁.requests = w.requests :=
        requests_eq (fun _ h => by cases h) (show w.next (.receive data) = some w₁ from hnext)
      rw [hrequests]
      rfl

end Worker

/-- The queue of a request after a run: what was pushed for its id during its lifetime. -/
theorem queue_eq {before after : List WorkerOp} {req : Request} {w : Worker}
    (hrun : run workerSystem always (before ++ .submit req :: after) Worker.init = some w) :
    w.queues (submits before) = (lifetime req.seqId after).flatMap (WorkerOp.pushes req.seqId) := by
  rw [run_append] at hrun
  obtain ⟨w₁, hbefore, hrun⟩ := Option.bind_eq_some_iff.1 hrun
  obtain ⟨w₂, hnext, hrun⟩ := Option.bind_eq_some_iff.1 hrun
  have howned := Worker.init_owned.run hbefore
  have hlength : w₁.requests.length = submits before := (Worker.run_requests hbefore).trans (Nat.zero_add _)
  have hsubmit : w₂ = w₁.submit req := by
    rw [show workerSystem.next w₁ (.submit req) = w₁.next (.submit req) from rfl, Worker.next] at hnext
    split at hnext
    case isTrue => cases hnext
    case isFalse => exact (Option.some.inj hnext).symm
  subst hsubmit
  have howned₂ : (w₁.submit req).Owned :=
    howned.next (show w₁.next (.submit req) = some (w₁.submit req) from hnext)
  rw [← hlength, Worker.run_active howned₂ List.getElem?_concat_length (Function.update_self _ _ _) hrun]
  show w₁.queues w₁.requests.length ++ _ = _
  rw [howned.fresh _ (Nat.le_refl _), List.nil_append]

/-! ## Delivery -/

/-- The tokens that the front end reads off a stepout. -/
def WireStepOut.read (step : WireStepOut) : List I32 := if step.tokenIds.1 = [] then [step.tokenId] else step.tokenIds.1

theorem WireStepOut.length_read (step : WireStepOut) :
    step.read.length = step.tokenIds.1.length + if step.tokenIds.1 = [] then 1 else 0 := by
  unfold read
  split
  case isTrue h => simp [h]
  case isFalse => rfl

theorem length_flatMap_le (steps : List WireStepOut) :
    (steps.flatMap fun step => step.tokenIds.1).length ≤ (steps.flatMap WireStepOut.read).length := by
  induction steps with
  | nil => exact Nat.le_refl _
  | cons step steps ih =>
    rw [List.flatMap_cons, List.flatMap_cons, List.length_append, List.length_append, step.length_read]
    omega

/-- What is read of stepouts is what they hold exactly if none is empty. -/
theorem flatMap_read_eq_iff (steps : List WireStepOut) :
    steps.flatMap WireStepOut.read = steps.flatMap (fun step => step.tokenIds.1) ↔
      ∀ step ∈ steps, step.tokenIds.1 ≠ [] := by
  constructor
  · intro heq step hmem hnil
    -- an empty stepout is read as one token
    obtain ⟨l₁, l₂, rfl⟩ := List.append_of_mem hmem
    have hlen := congrArg List.length heq
    simp only [List.flatMap_append, List.flatMap_cons, List.length_append, step.length_read, if_pos hnil] at hlen
    have h₁ := length_flatMap_le l₁
    have h₂ := length_flatMap_le l₂
    omega
  · intro hne
    refine List.flatMap_congr fun step hmem => ?_
    exact if_neg (hne step hmem)

theorem tokensOf_append (q q' : List QueueItem) : tokensOf (q ++ q') = tokensOf q ++ tokensOf q' := List.flatMap_append

theorem tokensOf_tokens (ids : List I32) (q : List QueueItem) : tokensOf (.tokens ids :: q) = ids ++ tokensOf q := rfl

theorem tokensOf_pushes (seqId : U64) (op : WorkerOp) :
    tokensOf (op.pushes seqId) = ((op.stepoutFor seqId).map WireStepOut.read).getD [] := by
  cases op with
  | submit req => rfl
  | abort id =>
    simp only [WorkerOp.pushes, WorkerOp.stepoutFor, Option.map_none, Option.getD_none]
    split <;> rfl
  | receive data =>
    rcases hstep : stepoutOf data with _ | step
    · simp only [WorkerOp.pushes, WorkerOp.stepoutFor, hstep, Option.filter_none, Option.map_none, Option.getD_none]
      split
      · split <;> rfl
      · rfl
    · by_cases hid : step.seqId = seqId
      · simp only [WorkerOp.pushes, WorkerOp.stepoutFor, hstep, if_pos hid, Option.filter_some, decide_eq_true hid,
          if_true, Option.map_some, Option.getD_some]
        rw [tokensOf_tokens]
        have hend : tokensOf (if step.status = finished then [.finish, .terminator] else []) = [] := by
          split <;> rfl
        rw [hend, List.append_nil]
        rfl
      · simp only [WorkerOp.pushes, WorkerOp.stepoutFor, hstep, if_neg hid, Option.filter_some, decide_eq_false hid]
        rfl

/-- The tokens of a queue are those read off the stepouts of the lifetime. -/
theorem tokensOf_lifetime (seqId : U64) (ops : List WorkerOp) :
    tokensOf (ops.flatMap (WorkerOp.pushes seqId)) =
      (ops.filterMap (WorkerOp.stepoutFor seqId)).flatMap WireStepOut.read := by
  induction ops with
  | nil => rfl
  | cons op ops ih =>
    rw [List.flatMap_cons, tokensOf_append, ih, tokensOf_pushes, List.filterMap_cons]
    cases op.stepoutFor seqId with
    | none => rfl
    | some step => rfl

/-- Only what ends a request puts the terminator, as the last item. -/
theorem pushes_terminator (seqId : U64) (op : WorkerOp) :
    if op.ends seqId then ∃ q, op.pushes seqId = q ++ [.terminator] ∧ .terminator ∉ q
      else .terminator ∉ op.pushes seqId := by
  cases op with
  | submit req => exact List.not_mem_nil
  | abort id =>
    by_cases hid : id = seqId
    · simp only [WorkerOp.ends, WorkerOp.pushes, hid, decide_true, if_true]
      exact ⟨[.finish], rfl, by decide⟩
    · simp [WorkerOp.ends, WorkerOp.pushes, hid]
  | receive data =>
    rcases hstep : stepoutOf data with _ | step
    · rcases hm : migrationOf data with _ | ⟨payload, id, firstToken⟩
      · simp [WorkerOp.ends, WorkerOp.pushes, hstep, hm]
      · by_cases hid : id = seqId
        · simp only [WorkerOp.ends, WorkerOp.pushes, hstep, hm, hid, Option.any_some, decide_true, if_true]
          exact ⟨[.migration payload firstToken seqId], rfl, by simp⟩
        · simp [WorkerOp.ends, WorkerOp.pushes, hstep, hm, hid]
    · by_cases hid : step.seqId = seqId
      · by_cases hstatus : step.status = finished
        · simp only [WorkerOp.ends, WorkerOp.pushes, hstep, hid, hstatus, decide_true, Bool.and_true, if_true]
          exact ⟨[.tokens _, .finish], rfl, by simp⟩
        · simp [WorkerOp.ends, WorkerOp.pushes, hstep, hid, hstatus]
      · simp [WorkerOp.ends, WorkerOp.pushes, hstep, hid]

/-- A queue has the terminator only as its last item. -/
theorem lifetime_terminator (seqId : U64) (ops : List WorkerOp) :
    ∃ q, .terminator ∉ q ∧ ((lifetime seqId ops).flatMap (WorkerOp.pushes seqId) = q ∨
      (lifetime seqId ops).flatMap (WorkerOp.pushes seqId) = q ++ [.terminator]) := by
  induction ops with
  | nil => exact ⟨[], List.not_mem_nil, Or.inl rfl⟩
  | cons op ops ih =>
    have hop := pushes_terminator seqId op
    rw [lifetime]
    split
    case isTrue hends =>
      rw [if_pos hends] at hop
      obtain ⟨q, hpushes, hq⟩ := hop
      exact ⟨q, hq, Or.inr (by rw [List.flatMap_singleton, hpushes])⟩
    case isFalse hends =>
      rw [if_neg hends] at hop
      obtain ⟨q, hq, hrest⟩ := ih
      refine ⟨op.pushes seqId ++ q, fun hmem => (List.mem_append.1 hmem).elim hop hq, ?_⟩
      rw [List.flatMap_cons, List.append_assoc]
      exact hrest.imp (congrArg _) (congrArg _)

/-- A call or packet about another id is none of the request's. -/
theorem pushes_of_about {seqId : U64} {op : WorkerOp} (h : op.about ≠ some seqId) :
    op.pushes seqId = [] ∧ op.ends seqId = false := by
  cases op with
  | submit req => exact ⟨rfl, rfl⟩
  | abort id =>
    have hid : id ≠ seqId := fun heq => h (congrArg some heq)
    simp [WorkerOp.pushes, WorkerOp.ends, hid]
  | receive data =>
    rcases hstep : stepoutOf data with _ | step
    · rcases hm : migrationOf data with _ | ⟨payload, id, firstToken⟩
      · simp [WorkerOp.pushes, WorkerOp.ends, hstep, hm]
      · simp only [WorkerOp.about, hstep, hm, Option.map_some] at h
        have hid : id ≠ seqId := fun heq => h (congrArg some heq)
        simp [WorkerOp.pushes, WorkerOp.ends, hstep, hm, hid]
    · simp only [WorkerOp.about, hstep] at h
      have hid : step.seqId ≠ seqId := fun heq => h (congrArg some heq)
      simp [WorkerOp.pushes, WorkerOp.ends, hstep, hid]

theorem lifetime_concat {seqId : U64} {op : WorkerOp} (h : op.pushes seqId = []) (ops : List WorkerOp) :
    (lifetime seqId (ops ++ [op])).flatMap (WorkerOp.pushes seqId) =
      (lifetime seqId ops).flatMap (WorkerOp.pushes seqId) := by
  induction ops with
  | nil =>
    have hone : lifetime seqId [op] = [op] := by
      rw [lifetime]
      split <;> rfl
    rw [List.nil_append, hone, List.flatMap_singleton, h]
    rfl
  | cons op' ops ih =>
    rw [List.cons_append, lifetime, lifetime]
    split
    case isTrue => rfl
    case isFalse => rw [List.flatMap_cons, List.flatMap_cons, ih]

/-- **Delivery**: in every run the queue of a request gets exactly the tokens of the stepouts of its lifetime, the
terminator at most once and last, and nothing for other ids, if and only if none of these stepouts is empty. -/
theorem delivered_iff {before after : List WorkerOp} {req : Request} {w : Worker}
    (hrun : run workerSystem always (before ++ .submit req :: after) Worker.init = some w) :
    Delivered before req after (w.queues (submits before)) ↔
      ∀ step ∈ stepouts req.seqId after, step.tokenIds.1 ≠ [] := by
  have hqueue := queue_eq hrun
  have htokens : tokensOf (w.queues (submits before)) = (stepouts req.seqId after).flatMap WireStepOut.read := by
    rw [hqueue, tokensOf_lifetime]
    rfl
  constructor
  · intro h
    exact (flatMap_read_eq_iff _).1 (htokens.symm.trans h.tokens)
  -- the tokens are complete; a terminator can only be the last item of the queue
  · intro hne
    obtain ⟨q, hq, hlast⟩ := lifetime_terminator req.seqId after
    rw [← hqueue] at hlast
    refine ⟨htokens.trans ((flatMap_read_eq_iff _).2 hne), ?_, fun q₁ q₂ heq => ?_, ?_⟩
    · rcases hlast with heq | heq
      · rw [heq, List.count_eq_zero_of_not_mem hq]
        exact Nat.zero_le 1
      · rw [heq, List.count_append, List.count_eq_zero_of_not_mem hq]
        exact Nat.le_refl 1
    · rcases hlast with hend | hend
      · rw [hend] at heq
        exact absurd (heq ▸ List.mem_append_right q₁ List.mem_cons_self) hq
      · -- a terminator before the last item would be in `q`
        rw [hend] at heq
        by_contra hnil
        obtain ⟨q₃, x, rfl⟩ := (List.eq_nil_or_concat q₂).resolve_left hnil
        rw [List.concat_eq_append, ← List.cons_append, ← List.append_assoc] at heq
        obtain ⟨hinit, -⟩ := List.append_inj' heq rfl
        exact hq (hinit ▸ List.mem_append_right q₁ List.mem_cons_self)
    · intro ops op rest _ habout w₁ w₂ hrun₁ hnext
      have hrun₂ : run workerSystem always (before ++ .submit req :: (ops ++ [op])) Worker.init = some w₂ := by
        have happend : before ++ WorkerOp.submit req :: (ops ++ [op]) =
          (before ++ .submit req :: ops) ++ [op] := by simp
        rw [happend, run_append, hrun₁]
        show (workerSystem.next w₁ op).bind (run workerSystem always []) = some w₂
        rw [hnext]
        rfl
      rw [queue_eq hrun₂, queue_eq hrun₁]
      exact lifetime_concat (pushes_of_about habout).1 ops

/-! ### Packets of the engine -/

/-- `encode_packet` of `encode_stepout`. -/
def stepoutPacket (step : WireStepOut) (h : (encodeBinary stepOut step).length < 2 ^ 64) : Bytes :=
  encodeBinary packet ⟨actionStepout, ⟨encodeBinary stepOut step, h⟩⟩

/-- The stepout that the engine sends is the one that is read. -/
theorem stepoutOf_stepoutPacket (step : WireStepOut) (h : (encodeBinary stepOut step).length < 2 ^ 64) :
    stepoutOf (stepoutPacket step h) = some step := by
  have hpacket := decodeBinary_encode packet ⟨actionStepout, ⟨encodeBinary stepOut step, h⟩⟩ []
  have hstep := decodeBinary_encode stepOut step []
  rw [List.append_nil] at hpacket hstep
  unfold stepoutOf payloadOf stepoutPacket
  rw [hpacket, Option.bind_some, if_pos rfl, Option.bind_some, hstep]

section witness

/-- A request without a payload. -/
def request (seqId : U64) : Request := ⟨seqId, .requestMigrate []⟩

theorem length_take_two_lt (tokens : List I32) : (tokens.take 2).length < 2 ^ 64 :=
  Nat.lt_of_le_of_lt (List.length_take_le 2 tokens) (by decide)

/-- A stepout with at most two tokens. -/
def shortStep (seqId : U64) (tokens : List I32) (status : I32) : WireStepOut :=
  ⟨seqId, ⟨tokens.take 2, length_take_two_lt tokens⟩, status⟩

theorem length_shortStep_lt (seqId : U64) (tokens : List I32) (status : I32) :
    (encodeBinary stepOut (shortStep seqId tokens status)).length < 2 ^ 64 := by
  have hnat : ∀ n x : ℕ, (encodeNat n x).length = n := fun n => by
    induction n with
    | zero => exact fun _ => rfl
    | succ n ih => exact fun x => congrArg Nat.succ (ih _)
  match tokens with
  | [] => simp [encodeBinary, stepOut, shortStep, pair, iso, list, i32, u64, fixint, hnat]
  | [a] => simp [encodeBinary, stepOut, shortStep, pair, iso, list, i32, u64, fixint, hnat]
  | a :: b :: _ => simp [encodeBinary, stepOut, shortStep, pair, iso, list, i32, u64, fixint, hnat]

/-- The packet of a stepout with at most two tokens. -/
def receiveShort (seqId : U64) (tokens : List I32) (status : I32) : WorkerOp :=
  .receive (stepoutPacket (shortStep seqId tokens status) (length_shortStep_lt seqId tokens status))

/-- Request 7 gets tokens in two stepouts, the second one its last, while request 8 is served. -/
def answered : List WorkerOp :=
  [receiveShort 7 [5] 1, receiveShort 8 [9] 1, receiveShort 7 [6, 4] finished, receiveShort 7 [] finished, .abort 7]

theorem delivered_iff_answered : ∃ w, run workerSystem always
    ([.submit (request 8)] ++ .submit (request 7) :: answered)
    Worker.init = some w ∧ Delivered [.submit (request 8)] (request 7) answered (w.queues 1) := by
  have hsome : (run workerSystem always ([.submit (request 8)] ++ .submit (request 7) :: answered)
    Worker.init).isSome = true := by
    decide +kernel
  obtain ⟨w, hw⟩ := Option.isSome_iff_exists.1 hsome
  exact ⟨w, hw, (delivered_iff hw).2 (by decide +kernel)⟩

/-- An aborted request is told so by a stepout without tokens. -/
def abortedByEngine : List WorkerOp := [receiveShort 7 [5] 1, receiveShort 7 [] finished]

/-- It gets a token 0 that was never sent. -/
theorem not_delivered :
    ∃ w, run workerSystem always ([] ++ .submit (request 7) :: abortedByEngine) Worker.init = some w ∧
    w.queues 0 = [.tokens [5], .tokens [0], .finish, .terminator] ∧
    ¬ Delivered [] (request 7) abortedByEngine (w.queues 0) := by
  have hsome : (run workerSystem always ([] ++ .submit (request 7) :: abortedByEngine) Worker.init).map
      (fun w => w.queues 0) = some [.tokens [5], .tokens [0], .finish, .terminator] := by
    decide +kernel
  obtain ⟨w, hw, hqueue⟩ := Option.map_eq_some_iff.1 hsome
  refine ⟨w, hw, hqueue, fun h => ?_⟩
  have htokens := h.tokens
  rw [hqueue] at htokens
  revert htokens
  decide +kernel

end witness

end NanoEngine.FrontEnd
