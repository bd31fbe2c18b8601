import NanoEngine.Router.Json

/-!
# NanoEngine.Router.Forward — the prefill/decode hand-over of the router

`forward_http_pd` of `rust/src/router/http_server.rs` and what it calls, with every exit.

* The peers are what the prefill and the decode node answer; the client is how long it stays.
* `forwardHttpPd` returns the requests sent and the response, if the handler comes to one.
* `forward_frees_once`: when exactly the prefill node is sent one free for the sequence it handed over.
-/

namespace NanoEngine

namespace Router

/-- Parsing and printing of JSON, of the `serde_json` crate. -/
structure Serde where
  parse : String → Except String Value
  print : Value → String

/-- What a node answers: the status, the content type and the body as it arrives, up to its end or an error. -/
structure Upstream where
  status : ℕ
  contentType : Option String
  chunks : List (Except String String)

/-- The outcome of `send().await`: an answer or a transport error. -/
abbrev Sent := Except String Upstream

structure Response where
  status : ℕ
  contentType : String
  body : List (Except String String)

/-- The endpoints that `route_generation_request` is called with. -/
inductive Endpoint
  | chatCompletions
  | messages
  deriving DecidableEq

/-- The paths that the router posts to. -/
inductive Path
  | generation (endpoint : Endpoint)
  | pdFree
  deriving DecidableEq

structure HttpRequest where
  base : String
  path : Path
  body : Value

/-- The client of a request: whether it waits for the response, and how many items of a streamed body it takes before it
closes the connection (`none`: it reads to the end).  A closed connection drops the handler or the body stream. -/
structure Client where
  waits : Bool
  takes : Option ℕ

def badGateway : ℕ := 502

/-- `StatusCode::from_u16(..).unwrap_or(BAD_GATEWAY)`. -/
def statusOf (code : ℕ) : ℕ := if 100 ≤ code ∧ code < 1000 then code else badGateway

/-- `StatusCode::is_success`. -/
def isSuccess (code : ℕ) : Bool := decide (200 ≤ code ∧ code < 300)

/-- `sanitize_http_payload`. -/
def sanitizeHttpPayload : Value → Value
  | .object entries => .object (entries.filter (fun e => !e.2.isNull))
  | v => v

/-- `bytes().await`: the whole body, or the error that ended it. -/
def readBytes : List (Except String String) → Except String String
  | [] => .ok ""
  | .error e :: _ => .error e
  | .ok bytes :: chunks =>
    match readBytes chunks with
    | .error e => .error e
    | .ok rest => .ok (bytes ++ rest)

def textResponse (status : ℕ) (text : String) : Response := ⟨status, "text/plain; charset=utf-8", [.ok text]⟩

/-- `upstream_response_to_axum`. -/
def upstreamResponseToAxum (upstream : Upstream) (stream : Bool) : Response :=
  if stream then ⟨statusOf upstream.status, "text/event-stream", upstream.chunks⟩
  else
    let body := match readBytes upstream.chunks with
      | .ok body => body
      | .error _ => ""
    ⟨statusOf upstream.status, upstream.contentType.getD "application/json", [.ok body]⟩

/-- `forward_http_payload`: the request it sends is recorded by the caller. -/
def forwardHttpPayload (sent : Sent) (stream : Bool) : Response :=
  match sent with
  | .ok upstream => upstreamResponseToAxum upstream stream
  | .error e => textResponse badGateway ("HTTP DLEngine upstream error: " ++ e)

/-- The request of `free_http_prefill`; what it is answered is ignored. -/
def freeHttpPrefill (prefillUrl : String) (seqId : Value) : HttpRequest :=
  ⟨trimEndSlashes prefillUrl, .pdFree, .object [("seq_ids", .array [seqId])]⟩

def completionAsSse (serde : Serde) (completion : Value) : Response :=
  ⟨200, "text/event-stream", [.ok ("data: " ++ serde.print completion ++ "\n\ndata: [DONE]\n\n")]⟩

/-- What a prefill node hands over: `migration`, `seq_id` and `first_token` of `kv_transfer_params`. -/
structure Handover where
  migration : Option Value
  seqId : Option Value
  firstToken : Option Value

def handoverOf (prefillInfo : Value) : Handover :=
  let kv := (prefillInfo.get "kv_transfer_params").bind Value.asObject
  ⟨kv.bind (·.get "migration"), kv.bind (·.get "seq_id"), kv.bind (·.get "first_token")⟩

def prefillPayload (payload : Value) : Value :=
  ((sanitizeHttpPayload payload).insert "stream" (.bool false)).insert "kv_transfer_params"
    (.object [("do_remote_decode", .bool true)])

def decodePayload (payload migration seqId : Value) (firstToken : Option Value) (stream : Bool) : Value :=
  let params := Value.object [("migration", migration), ("seq_id", seqId)]
  let params := match firstToken with
    | none => params
    | some token => params.insert "first_token" token
  ((sanitizeHttpPayload payload).insert "kv_transfer_params" params).insert "stream" (.bool stream)

/-- The stream that passes the decode node's body on: the items that the client gets, and whether it comes to the free
after the last one.  `takes` is what the client still takes. -/
def relay : List (Except String String) → Option ℕ → List (Except String String) × Bool
  | _, some 0 => ([], false)
  | [], _ => ([], true)
  | .error e :: _, _ => ([.error e], false)
  | .ok bytes :: chunks, takes =>
    let r := relay chunks (takes.map (· - 1))
    (.ok bytes :: r.1, r.2)

/-- The decode stage of `forward_http_pd`. -/
def forwardDecode (prefillUrl : String) (seqId : Value) (stream : Bool) (decode : Sent) (client : Client) :
    List HttpRequest × Option Response :=
  let free := freeHttpPrefill prefillUrl seqId
  -- the handler is dropped while it awaits the decode node
  if !client.waits then ([], none)
  else if !stream then ([free], some (forwardHttpPayload decode false))
  else
    match decode with
    | .error e => ([], some (textResponse badGateway ("HTTP DLEngine decode error: " ++ e)))
    | .ok upstream =>
      if !isSuccess (statusOf upstream.status) then ([], some (upstreamResponseToAxum upstream false))
      else
        let r := relay upstream.chunks client.takes
        (if r.2 then [free] else [], some ⟨200, "text/event-stream", r.1⟩)

/-- `forward_http_pd`: the requests sent, in order, and the response. -/
def forwardHttpPd (serde : Serde) (prefillUrl decodeUrl : String) (endpoint : Endpoint)
    (payload : Value) (stream : Bool)
    (prefill decode : Sent) (client : Client) : List HttpRequest × Option Response :=
  let prefillRequest : HttpRequest := ⟨trimEndSlashes prefillUrl, .generation endpoint, prefillPayload payload⟩
  match prefill with
  | .error e => ([prefillRequest], some (textResponse badGateway ("HTTP DLEngine prefill error: " ++ e)))
  | .ok upstream =>
    if !isSuccess upstream.status then ([prefillRequest], some (upstreamResponseToAxum upstream false))
    else
      match readBytes upstream.chunks with
      | .error e => ([prefillRequest], some (textResponse badGateway ("Invalid DLEngine prefill response: " ++ e)))
      | .ok body =>
        match serde.parse body with
        | .error e => ([prefillRequest], some (textResponse badGateway ("Invalid DLEngine prefill response: " ++ e)))
        | .ok prefillInfo =>
          match (handoverOf prefillInfo).migration, (handoverOf prefillInfo).seqId with
          | none, _ =>
            ([prefillRequest], some
              (if (prefillInfo.get "choices").isSome then
                if stream then completionAsSse serde prefillInfo
                else ⟨200, "application/json", [.ok (serde.print prefillInfo)]⟩
              else textResponse badGateway "DLEngine prefill response missing migration payload"))
          | some _, none =>
            ([prefillRequest], some (textResponse badGateway "DLEngine prefill response missing migration seq_id"))
          | some migration, some seqId =>
            let request : HttpRequest := ⟨trimEndSlashes decodeUrl, .generation endpoint,
              decodePayload payload migration seqId (handoverOf prefillInfo).firstToken stream⟩
            let r := forwardDecode prefillUrl seqId stream decode client
            (prefillRequest :: request :: r.1, r.2)

/-! ## Frees -/

/-- The id of the sequence that the answer of a prefill node hands over, with a migration payload. -/
def handedOver (serde : Serde) (prefill : Sent) : Option Value :=
  match prefill with
  | .error _ => none
  | .ok upstream =>
    if !isSuccess upstream.status then none
    else
      match readBytes upstream.chunks with
      | .error _ => none
      | .ok body =>
        match serde.parse body with
        | .error _ => none
        | .ok info => (handoverOf info).migration.bind (fun _ => (handoverOf info).seqId)

/-- The requests of a handling that free a sequence on a prefill node. -/
def frees (requests : List HttpRequest) : List HttpRequest := requests.filter (fun r => decide (r.path = .pdFree))

/-- The body of the decode node arrives whole and the client takes all of it, and its end. -/
def streamEnds (upstream : Upstream) (client : Client) : Bool :=
  upstream.chunks.all (fun chunk => match chunk with | .ok _ => true | .error _ => false) &&
    match client.takes with
    | none => true
    | some n => decide (upstream.chunks.length < n)

/-- The decode node answers with success and the stream runs to its end. -/
def decodeStreams (decode : Sent) (client : Client) : Bool :=
  match decode with
  | .error _ => false
  | .ok upstream => isSuccess (statusOf upstream.status) && streamEnds upstream client

theorem relay_ends (chunks : List (Except String String)) (takes : Option ℕ) :
    (relay chunks takes).2 = true ↔
      (chunks.all (fun chunk => match chunk with | .ok _ => true | .error _ => false) = true ∧
      ∀ n, takes = some n → chunks.length < n) := by
  induction chunks generalizing takes with
  | nil =>
    rcases takes with _ | _ | n
    · simp [relay]
    · simp [relay]
    · simp [relay]
  | cons chunk chunks ih =>
    rcases takes with _ | _ | n
    · cases chunk with
      | error e => simp [relay]
      | ok bytes => simpa [relay] using ih none
    · simp [relay]
    · cases chunk with
      | error e => simp [relay]
      | ok bytes => simpa [relay] using ih (some n)

theorem forwardDecode_frees (prefillUrl : String) (seqId : Value) (stream : Bool) (decode : Sent) (client : Client) :
    (forwardDecode prefillUrl seqId stream decode client).1 =
      if client.waits = true ∧ (stream = true → decodeStreams decode client = true)
        then [freeHttpPrefill prefillUrl seqId]
        else [] := by
  unfold forwardDecode decodeStreams
  cases hwaits : client.waits with
  | false => simp
  | true =>
    cases stream with
    | false => simp
    | true =>
      cases decode with
      | error e => simp
      | ok upstream =>
        cases hok : isSuccess (statusOf upstream.status) with
        | false => simp [hok]
        | true =>
          have hends := relay_ends upstream.chunks client.takes
          have hstream : streamEnds upstream client = (relay upstream.chunks client.takes).2 := by
            rw [Bool.eq_iff_iff, hends]
            unfold streamEnds
            cases client.takes <;> simp
          simp [hok, hstream]

/-- A prefill node that hands a sequence over is followed by the decode stage. -/
theorem forwardHttpPd_handedOver {serde : Serde} {prefill : Sent} {seqId : Value}
    (h : handedOver serde prefill = some seqId)
    (prefillUrl decodeUrl : String) (endpoint : Endpoint) (payload : Value) (stream : Bool) (decode : Sent)
    (client : Client) : ∃ body body' : Value,
      (forwardHttpPd serde prefillUrl decodeUrl endpoint payload stream prefill decode client).1 =
        ⟨trimEndSlashes prefillUrl, .generation endpoint, body⟩ ::
          ⟨trimEndSlashes decodeUrl, .generation endpoint, body'⟩ ::
          (forwardDecode prefillUrl seqId stream decode client).1 := by
  unfold handedOver at h
  unfold forwardHttpPd
  cases prefill with
  | error e => cases h
  | ok upstream =>
    dsimp only at h ⊢
    split at h
    case isTrue => cases h
    case isFalse hok =>
      rw [if_neg hok]
      cases hbody : readBytes upstream.chunks with
      | error e =>
        rw [hbody] at h
        cases h
      | ok body =>
        rw [hbody] at h
        dsimp only at h ⊢
        cases hinfo : serde.parse body with
        | error e =>
          rw [hinfo] at h
          cases h
        | ok info =>
          rw [hinfo] at h
          dsimp only at h ⊢
          obtain ⟨migration, hmigration, hseqId⟩ := Option.bind_eq_some_iff.1 h
          rw [hmigration, hseqId]
          exact ⟨_, _, rfl⟩

/-- **One free for every sequence handed over**: exactly when the client waits for the response and, for a stream, the
decode node answers with success and its body runs to the end. -/
theorem forward_frees_once (serde : Serde) (prefillUrl decodeUrl : String) (endpoint : Endpoint) (payload : Value)
    (stream : Bool) (prefill decode : Sent) (client : Client) (seqId : Value)
    (h : handedOver serde prefill = some seqId) :
    frees (forwardHttpPd serde prefillUrl decodeUrl endpoint payload stream prefill decode client).1 =
        [freeHttpPrefill prefillUrl seqId] ↔
      client.waits = true ∧ (stream = true → decodeStreams decode client = true) := by
  obtain ⟨body, body', hsent⟩ := forwardHttpPd_handedOver h prefillUrl decodeUrl endpoint
    payload stream decode client
  have hfrees : frees (forwardHttpPd serde prefillUrl decodeUrl endpoint payload stream prefill decode client).1 =
      (forwardDecode prefillUrl seqId stream decode client).1 := by
    rw [hsent, forwardDecode_frees]
    split <;> simp [frees, freeHttpPrefill]
  rw [hfrees, forwardDecode_frees]
  split
  case isTrue hwhen => exact ⟨fun _ => hwhen, fun _ => rfl⟩
  case isFalse hwhen => simp [hwhen]

/-! ### One sequence -/

/-- The answer of a prefill node as it prints it. -/
def handoverText : String := "\x7b\"kv_transfer_params\":\x7b\"migration\":\"AA==\",\"seq_id\":1024\x7d\x7d"

/-- `handoverText` as a value. -/
def handoverValue : Value :=
  .object [("kv_transfer_params", .object [("migration", .string "AA=="), ("seq_id", .int 1024)])]

/-- Parsing and printing of this answer. -/
def handoverSerde : Serde where
  parse s := if s = handoverText then .ok handoverValue else .error "expected value at line 1 column 1"
  print _ := handoverText

def handoverSent : Sent := .ok ⟨200, some "application/json", [.ok handoverText]⟩

theorem handedOver_handoverSent : handedOver handoverSerde handoverSent = some (.int 1024) := by
  simp [handedOver, handoverSent, isSuccess, readBytes, handoverSerde, handoverValue, handoverOf,
    Value.get, Value.asObject]

/-- A reply without streaming frees the sequence, also when the decode node cannot be reached. -/
theorem forward_frees_once_plain : handedOver handoverSerde handoverSent = some (.int 1024) ∧
    frees (forwardHttpPd handoverSerde "http://p" "http://d" .chatCompletions (.object []) false handoverSent
      (.error "connection refused") ⟨true, none⟩).1 = [freeHttpPrefill "http://p" (.int 1024)] :=
  ⟨handedOver_handoverSent, (forward_frees_once _ _ _ _ _ _ _ _ _ _ handedOver_handoverSent).2 ⟨rfl, by simp⟩⟩

/-- A streaming request whose decode node cannot be reached frees nothing. -/
theorem not_forward_frees_once : ¬ ∀ (serde : Serde) (prefillUrl decodeUrl : String) (endpoint : Endpoint)
    (payload : Value) (stream : Bool) (prefill decode : Sent) (client : Client) (seqId : Value),
    handedOver serde prefill = some seqId →
      frees (forwardHttpPd serde prefillUrl decodeUrl endpoint payload stream prefill decode client).1 =
        [freeHttpPrefill prefillUrl seqId] := by
  intro h
  have hfree := h handoverSerde "http://p" "http://d" .chatCompletions (.object []) true handoverSent
    (.error "connection refused") ⟨true, none⟩ (.int 1024) handedOver_handoverSent
  obtain ⟨body, body', hsent⟩ := forwardHttpPd_handedOver handedOver_handoverSent "http://p"
    "http://d" .chatCompletions
    (.object []) true (.error "connection refused") ⟨true, none⟩
  rw [hsent] at hfree
  simp [forwardDecode, frees] at hfree

end Router

end NanoEngine
