import NanoEngine.Server.Replies

/-!
# NanoEngine.Server.Messages — a reply of the Anthropic Messages API

`event_stream` and `format_messages_response` of `dlengine/server/anthropic_api.py`.

* `messageEvents`: a text block for the visible answer, one block for each tool call, the stop reason and the usage.
* `Client.receive`: a client of the protocol; it takes no event out of order and no index but the next one.
* `messages_stream_accepted`: the client takes the events of every run, whether it is exhausted or raises.
* `messages_stream_eq_response`: for structured text the client ends with the message that is not streamed.
-/

namespace NanoEngine.Server

open Markers Kimi

inductive StopReason
  | endTurn | maxTokens | toolUse
  deriving DecidableEq

/-- The `content_block` of a start. -/
inductive BlockStart
  | text
  | toolUse (name : Text)

inductive BlockDelta
  | textDelta (text : Text)
  | inputJsonDelta (partialJson : Text)

inductive MessageEvent
  | messageStart (inputTokens : ℕ)
  | contentBlockStart (index : ℤ) (contentBlock : BlockStart)
  | contentBlockDelta (index : ℤ) (delta : BlockDelta)
  | contentBlockStop (index : ℤ)
  | messageDelta (stopReason : StopReason) (outputTokens : ℕ)
  | messageStop
  | error (message : String)

/-- What `handle_messages` has found out before it generates. -/
structure MessagesRequest where
  useTools : Bool
  inputTokens : ℕ
  /-- `tokenizer.decode` with `skip_special_tokens` -/
  decode : List ℤ → Text
  /-- `parse_full`, with the tools of the request or with none -/
  parseFull : Bool → Text → ParsedOutput

section replies

variable {V : Type} [Json V]

/-- `_tool_input`. -/
def toolInput (V : Type) [Json V] (call : ToolCall) : V :=
  if call.arguments.isEmpty then Json.object [] else (Json.loads call.arguments).getD (Json.object [])

/-- `json.dumps(_tool_input(tc))`. -/
def toolJson (V : Type) [Json V] (call : ToolCall) : Text := Json.dumps (toolInput V call)

/-- The generation that the loop ends with: `None` when nothing was yielded. -/
def lastGen (yields : List Yield) (gen : Generation) : Option Generation := if yields.isEmpty then none else some gen

/-- The stop reason of a generation and its tool calls. -/
def stopReasonOf (gen : Option Generation) (toolCalls : List ToolCall) : StopReason :=
  if !toolCalls.isEmpty then .toolUse
  else if gen.any (fun gen => decide (gen.finishReason = .length)) then .maxTokens
  else .endTurn

/-- The loop over `stream_text`: the events, `index` and `text_block_open`. -/
def deltaEvents : List Yield → ℤ → Bool → List MessageEvent × ℤ × Bool
  | [], index, textBlockOpen => ([], index, textBlockOpen)
  | y :: ys, index, textBlockOpen =>
    if y.2.inReasoning || y.1.isEmpty then deltaEvents ys index textBlockOpen
    else if textBlockOpen then
      let rest := deltaEvents ys index true
      (.contentBlockDelta index (.textDelta y.1) :: rest.1, rest.2)
    else
      let rest := deltaEvents ys (index + 1) true
      (.contentBlockStart (index + 1) .text :: .contentBlockDelta (index + 1) (.textDelta y.1) :: rest.1, rest.2)

/-- The blocks of the tool calls, from `index + 1` on. -/
def toolEvents (V : Type) [Json V] : List ToolCall → ℤ → List MessageEvent
  | [], _ => []
  | call :: calls, index =>
    .contentBlockStart (index + 1) (.toolUse call.name) ::
      .contentBlockDelta (index + 1) (.inputJsonDelta (toolJson V call)) ::
        .contentBlockStop (index + 1) :: toolEvents V calls (index + 1)

/-- `tool_calls` behind the loop. -/
def streamedCalls (r : MessagesRequest) (gen : Option Generation) : List ToolCall :=
  match gen with
  | none => []
  | some gen =>
    if r.useTools then
      let fullText := if gen.parsedOutput then [] else r.decode gen.tokenIds
      (parseGeneration (r.parseFull true) gen fullText).toolCalls
    else []

/-- The events behind the loop. -/
def endEvents (V : Type) [Json V] (r : MessagesRequest) (gen : Option Generation) (index : ℤ) (textBlockOpen : Bool) :
    List MessageEvent :=
  let toolCalls := streamedCalls r gen
  -- a message carries at least one block
  let opened : List MessageEvent × ℤ × Bool :=
    if !textBlockOpen && toolCalls.isEmpty then ([.contentBlockStart (index + 1) .text], index + 1, true)
    else ([], index, textBlockOpen)
  opened.1 ++ (if opened.2.2 then [.contentBlockStop opened.2.1] else []) ++ toolEvents V toolCalls opened.2.1 ++
    [.messageDelta (stopReasonOf gen toolCalls) ((gen.map (·.tokenIds.length)).getD 0), .messageStop]

/-- `event_stream`. -/
def messageEvents (V : Type) [Json V] (r : MessagesRequest) (src : Source) : List MessageEvent :=
  let loop := deltaEvents src.yields (-1) false
  .messageStart r.inputTokens :: loop.1 ++
    match src.ending with
    | .exhausted gen => endEvents V r (lastGen src.yields gen) loop.2.1 loop.2.2
    | .raised message => [.error message]

/-! ### The message that is not streamed -/

inductive ContentBlock (V : Type)
  | text (text : Text)
  | toolUse (name : Text) (input : V)

structure MessagesResponse (V : Type) where
  content : List (ContentBlock V)
  stopReason : StopReason
  inputTokens : ℕ
  outputTokens : ℕ

/-- `content_blocks`: never empty. -/
def contentBlocks (V : Type) [Json V] (content : Text) (toolCalls : List ToolCall) : List (ContentBlock V) :=
  let blocks := (if content.isEmpty then [] else [.text content]) ++
    toolCalls.map fun tc => .toolUse tc.name (toolInput V tc)
  if blocks.isEmpty then [.text []] else blocks

/-- `format_messages_response`. -/
def formatMessagesResponse (V : Type) [Json V] (r : MessagesRequest) (text : Text) (gen : Option Generation) :
    MessagesResponse V :=
  let parsed := parseGeneration (r.parseFull r.useTools) (gen.getD {}) text
  let toolCalls := if r.useTools then parsed.toolCalls else []
  { content := contentBlocks V (parsed.content.getD []) toolCalls
    stopReason := stopReasonOf gen toolCalls
    inputTokens := r.inputTokens
    outputTokens := (gen.map (·.tokenIds.length)).getD 0 }

/-- The rest of `handle_messages`; `.error` is that of the engine. -/
def messagesResponse (V : Type) [Json V] (r : MessagesRequest) (src : Source) : Except String (MessagesResponse V) :=
  match src.ending with
  | .raised message => .error message
  | .exhausted gen => .ok (formatMessagesResponse V r (visibleText src.yields) (lastGen src.yields gen))

/-! ### The client -/

/-- A block as a client collects it; the input of a tool is the text of its JSON. -/
inductive ClientBlock
  | text (t : Text)
  | toolUse (name partialJson : Text)

def ClientBlock.start : BlockStart → ClientBlock
  | .text => .text []
  | .toolUse name => .toolUse name []

def ClientBlock.append : ClientBlock → BlockDelta → Option ClientBlock
  | .text t, .textDelta more => some (.text (t ++ more))
  | .toolUse name partialJson, .inputJsonDelta more => some (.toolUse name (partialJson ++ more))
  | _, _ => none

inductive Client
  | waiting
  | receiving (inputTokens : ℕ) (finished : List ClientBlock) (current : Option ClientBlock)
  | closing (inputTokens : ℕ) (content : List ClientBlock) (stopReason : StopReason) (outputTokens : ℕ)
  | complete (inputTokens : ℕ) (content : List ClientBlock) (stopReason : StopReason) (outputTokens : ℕ)
  | failed (message : String)

namespace Client

/-- A client; `none` is an event out of order. -/
def receive : Client → MessageEvent → Option Client
  | .waiting, .messageStart inputTokens => some (.receiving inputTokens [] none)
  | .receiving n finished none, .contentBlockStart index block =>
    if index = finished.length then some (.receiving n finished (some (.start block))) else none
  | .receiving n finished (some current), .contentBlockDelta index delta =>
    if index = finished.length then (current.append delta).map fun block => .receiving n finished (some block) else none
  | .receiving n finished (some current), .contentBlockStop index =>
    if index = finished.length then some (.receiving n (finished ++ [current]) none) else none
  | .receiving n finished none, .messageDelta stopReason outputTokens =>
    some (.closing n finished stopReason outputTokens)
  | .receiving _ _ _, .error message => some (.failed message)
  | .closing n content stopReason outputTokens, .messageStop => some (.complete n content stopReason outputTokens)
  | _, _ => none

def receiveAll (c : Client) (es : List MessageEvent) : Option Client := es.foldlM receive c

theorem receiveAll_append {c d : Client} {es fs : List MessageEvent} (h : c.receiveAll es = some d) :
    c.receiveAll (es ++ fs) = d.receiveAll fs := by
  unfold receiveAll at h ⊢
  rw [List.foldlM_append, h]
  rfl

theorem receive_start (n : ℕ) (finished : List ClientBlock) (block : BlockStart) (index : ℤ)
    (hindex : index = finished.length) :
    (receiving n finished none).receive (.contentBlockStart index block) =
      some (.receiving n finished (some (.start block))) :=
  if_pos hindex

theorem receive_delta (n : ℕ) (finished : List ClientBlock) (current block : ClientBlock)
    (delta : BlockDelta) (index : ℤ)
    (hindex : index = finished.length) (happend : current.append delta = some block) :
    (receiving n finished (some current)).receive (.contentBlockDelta index delta) =
      some (.receiving n finished (some block)) := by
  rw [receive, if_pos hindex, happend]
  rfl

theorem receive_stop (n : ℕ) (finished : List ClientBlock) (current : ClientBlock) (index : ℤ)
    (hindex : index = finished.length) :
    (receiving n finished (some current)).receive (.contentBlockStop index) =
      some (.receiving n (finished ++ [current]) none) :=
  if_pos hindex

theorem receiveAll_cons {c d : Client} {e : MessageEvent} {es : List MessageEvent} (h : c.receive e = some d) :
    c.receiveAll (e :: es) = d.receiveAll es := by
  unfold receiveAll
  rw [List.foldlM_cons, h]
  rfl

end Client

/-- The client's text block while it is open. -/
def openText (n : ℕ) (textBlockOpen : Bool) (text : Text) : Client :=
  .receiving n [] (if textBlockOpen then some (.text text) else none)

/-- The loop sends the visible text in one block, which is opened by its first piece. -/
theorem deltaEvents_spec (n : ℕ) (ys : List Yield) (textBlockOpen : Bool) (text : Text)
    (htext : textBlockOpen = false → text = []) :
    (openText n textBlockOpen text).receiveAll (deltaEvents ys (if textBlockOpen then 0 else -1) textBlockOpen).1 =
        some (openText n (textBlockOpen || !(visibleText ys).isEmpty) (text ++ visibleText ys)) ∧
      (deltaEvents ys (if textBlockOpen then 0 else -1) textBlockOpen).2 =
        (if textBlockOpen || !(visibleText ys).isEmpty then 0 else -1, textBlockOpen || !(visibleText ys).isEmpty) := by
  induction ys generalizing textBlockOpen text with
  | nil => simp [deltaEvents, Client.receiveAll]
  | cons y ys ih =>
    rw [deltaEvents, visibleText_cons]
    by_cases hskip : (y.2.inReasoning || y.1.isEmpty) = true
    · have hnothing : (if y.2.inReasoning then [] else y.1) = [] := by
        cases hr : y.2.inReasoning with
        | true => rfl
        | false => simpa [hr] using hskip
      rw [if_pos hskip, hnothing, List.nil_append]
      exact ih textBlockOpen text htext
    · have hskip' := hskip
      simp only [Bool.or_eq_true, not_or, List.isEmpty_iff] at hskip'
      have hpiece : (if y.2.inReasoning then [] else y.1) = y.1 ∧ y.1 ≠ [] := ⟨if_neg hskip'.1, hskip'.2⟩
      have hsome : (!(y.1 ++ visibleText ys).isEmpty) = true := by simp [hpiece.2]
      obtain ⟨hsent, hstate⟩ := ih true (text ++ y.1) fun h => Bool.noConfusion h
      rw [if_neg hskip, hpiece.1, hsome, Bool.or_true]
      rw [Bool.true_or, List.append_assoc] at hsent
      rw [Bool.true_or] at hstate
      cases textBlockOpen with
      | true =>
        rw [if_pos rfl, if_pos rfl]
        have hdelta := Client.receive_delta n [] (.text text) (.text (text ++ y.1)) (.textDelta y.1) 0 rfl rfl
        exact ⟨(Client.receiveAll_cons hdelta).trans hsent, hstate⟩
      | false =>
        rw [htext rfl, List.nil_append] at hsent
        rw [htext rfl, List.nil_append, if_neg Bool.false_ne_true, if_neg Bool.false_ne_true]
        have hstart := Client.receive_start n [] .text (-1 + 1) rfl
        have hdelta := Client.receive_delta n [] (.text []) (.text y.1) (.textDelta y.1) (-1 + 1) rfl rfl
        exact ⟨(Client.receiveAll_cons hstart).trans ((Client.receiveAll_cons hdelta).trans hsent), hstate⟩

/-- The block of a tool call at the client. -/
def clientCall (V : Type) [Json V] (call : ToolCall) : ClientBlock := .toolUse call.name (toolJson V call)

theorem toolEvents_spec (n : ℕ) (calls : List ToolCall) (finished : List ClientBlock) :
    (Client.receiving n finished none).receiveAll (toolEvents V calls ((finished.length : ℤ) - 1)) =
      some (.receiving n (finished ++ calls.map (clientCall V)) none) := by
  induction calls generalizing finished with
  | nil => simp [toolEvents, Client.receiveAll]
  | cons call calls ih =>
    have hindex : (finished.length : ℤ) - 1 + 1 = finished.length := Int.sub_add_cancel _ _
    have hlength : ((finished ++ [clientCall V call]).length : ℤ) - 1 = finished.length := by simp
    have hrest := ih (finished ++ [clientCall V call])
    rw [hlength, List.append_assoc] at hrest
    rw [toolEvents, hindex]
    rw [Client.receiveAll_cons (Client.receive_start n finished (.toolUse call.name) _ rfl),
      Client.receiveAll_cons (Client.receive_delta n finished _ (clientCall V call) _ _ rfl rfl),
      Client.receiveAll_cons (Client.receive_stop n finished (clientCall V call) _ rfl)]
    exact hrest

/-- The block of a message as a client collects it. -/
def ContentBlock.wire : ContentBlock V → ClientBlock
  | .text t => .text t
  | .toolUse name input => .toolUse name (Json.dumps input)

/-- The blocks of a complete message at the client. -/
def clientContent (V : Type) [Json V] (text : Text) (calls : List ToolCall) : List ClientBlock :=
  (contentBlocks V text calls).map ContentBlock.wire

theorem clientContent_ne_nil (text : Text) (calls : List ToolCall) : clientContent V text calls ≠ [] := by
  unfold clientContent contentBlocks
  cases text <;> cases calls <;> simp

theorem clientContent_nil : clientContent V [] [] = [.text []] := rfl

theorem clientContent_cons (c : Char) (text : Text) (calls : List ToolCall) :
    clientContent V (c :: text) calls = .text (c :: text) :: calls.map (clientCall V) := by
  simp [clientContent, contentBlocks, ContentBlock.wire, clientCall, toolJson, Function.comp_def]

theorem clientContent_calls (call : ToolCall) (calls : List ToolCall) :
    clientContent V [] (call :: calls) = (call :: calls).map (clientCall V) := by
  simp [clientContent, contentBlocks, ContentBlock.wire, clientCall, toolJson, Function.comp_def]

theorem endEvents_spec (r : MessagesRequest) (gen : Option Generation) (n : ℕ) (text : Text) :
    (openText n (!text.isEmpty) text).receiveAll
        (endEvents V r gen (if !text.isEmpty then 0 else -1) (!text.isEmpty)) =
      some (.complete n (clientContent V text (streamedCalls r gen)) (stopReasonOf gen (streamedCalls r gen))
        ((gen.map (·.tokenIds.length)).getD 0)) := by
  have htail : ∀ content : List ClientBlock,
      (Client.receiving n content none).receiveAll
        [.messageDelta (stopReasonOf gen (streamedCalls r gen)) ((gen.map (·.tokenIds.length)).getD 0), .messageStop] =
      some (.complete n content (stopReasonOf gen (streamedCalls r gen)) ((gen.map (·.tokenIds.length)).getD 0)) :=
    fun _ => rfl
  have hstop := fun t : Text => Client.receive_stop n [] (.text t) 0 rfl
  unfold endEvents
  dsimp only
  generalize streamedCalls r gen = calls at htail ⊢
  cases text with
  | cons c text =>
    -- the text block is open: it is closed before the calls
    have hcalls := toolEvents_spec (V := V) n calls [.text (c :: text)]
    rw [clientContent_cons]
    exact (Client.receiveAll_cons (hstop _)).trans ((Client.receiveAll_append hcalls).trans (htail _))
  | nil =>
    cases calls with
    | nil =>
      -- nothing to show: an empty block is opened and closed
      have hstart := Client.receive_start n [] .text (-1 + 1) rfl
      rw [clientContent_nil]
      exact (Client.receiveAll_cons hstart).trans ((Client.receiveAll_cons (hstop [])).trans (htail [.text []]))
    | cons call calls =>
      have hcalls := toolEvents_spec (V := V) n (call :: calls) []
      rw [clientContent_calls]
      exact (Client.receiveAll_append hcalls).trans (htail _)

/-- The loop, at the client. -/
theorem deltaEvents_initial (n : ℕ) (ys : List Yield) :
    (openText n false []).receiveAll (deltaEvents ys (-1) false).1 =
        some (openText n (!(visibleText ys).isEmpty) (visibleText ys)) ∧
      (deltaEvents ys (-1) false).2 = (if !(visibleText ys).isEmpty then 0 else -1, !(visibleText ys).isEmpty) := by
  have hspec := deltaEvents_spec n ys false [] fun _ => rfl
  rwa [if_neg Bool.false_ne_true, Bool.false_or, List.nil_append] at hspec

theorem receive_messageStart (n : ℕ) : Client.waiting.receive (.messageStart n) = some (openText n false []) := rfl

theorem messageEvents_exhausted (V : Type) [Json V] (r : MessagesRequest) (ys : List Yield) (gen : Generation) :
    Client.waiting.receiveAll (messageEvents V r ⟨ys, .exhausted gen⟩) =
      some (.complete r.inputTokens (clientContent V (visibleText ys) (streamedCalls r (lastGen ys gen)))
        (stopReasonOf (lastGen ys gen) (streamedCalls r (lastGen ys gen)))
        (((lastGen ys gen).map (·.tokenIds.length)).getD 0)) := by
  obtain ⟨hsent, hstate⟩ := deltaEvents_initial r.inputTokens ys
  unfold messageEvents
  dsimp only
  rw [List.cons_append, Client.receiveAll_cons (receive_messageStart _), Client.receiveAll_append hsent, hstate]
  exact endEvents_spec r (lastGen ys gen) r.inputTokens (visibleText ys)

theorem messageEvents_raised (V : Type) [Json V] (r : MessagesRequest) (ys : List Yield) (message : String) :
    Client.waiting.receiveAll (messageEvents V r ⟨ys, .raised message⟩) = some (.failed message) := by
  obtain ⟨hsent, -⟩ := deltaEvents_initial r.inputTokens ys
  unfold messageEvents
  dsimp only
  rw [List.cons_append, Client.receiveAll_cons (receive_messageStart _), Client.receiveAll_append hsent]
  cases visibleText ys <;> rfl

/-- **The client takes the events of every run**: a stream that is exhausted completes a message with at least one
block, and one that raises ends with its error. -/
theorem messages_stream_accepted (V : Type) [Json V] (r : MessagesRequest) (ys : List Yield) (gen : Generation)
    (message : String) :
    (∃ content ≠ [], Client.waiting.receiveAll (messageEvents V r ⟨ys, .exhausted gen⟩) =
      some (.complete r.inputTokens content (stopReasonOf (lastGen ys gen) (streamedCalls r (lastGen ys gen)))
        (((lastGen ys gen).map (·.tokenIds.length)).getD 0))) ∧
      Client.waiting.receiveAll (messageEvents V r ⟨ys, .raised message⟩) = some (.failed message) :=
  ⟨⟨_, clientContent_ne_nil _ _, messageEvents_exhausted V r ys gen⟩, messageEvents_raised V r ys message⟩

/-- What a client reads in a block: the input of a tool is the value of its joined deltas. -/
def ClientBlock.read (V : Type) [Json V] : ClientBlock → Option (ContentBlock V)
  | .text t => some (.text t)
  | .toolUse name partialJson => (Json.loads partialJson).map (.toolUse name)

theorem ContentBlock.read_wire (hjson : ∀ x : V, Json.loads (Json.dumps x) = some x) (block : ContentBlock V) :
    block.wire.read V = some block := by
  cases block with
  | text t => rfl
  | toolUse name input =>
    rw [ContentBlock.wire, ClientBlock.read, hjson]
    rfl

/-- **A streamed message is the message that is not streamed**, for every structured stream: the client collects the
same blocks, and reads the inputs of the tools back where `json.loads` reads what `json.dumps` wrote. -/
theorem messages_stream_eq_response [WordChars] {decode : List ℤ → Text} (r : MessagesRequest) {c : StreamConfig}
    {items : List Item} {s : Stream} (h : streamStructuredText V decode c items = .ok s) :
    ∃ (m : MessagesResponse V) (content : List ClientBlock), messagesResponse V r s.source = .ok m ∧
      Client.waiting.receiveAll (messageEvents V r s.source) =
        some (.complete m.inputTokens content m.stopReason m.outputTokens) ∧
      content = m.content.map ContentBlock.wire ∧
      ((∀ x : V, Json.loads (Json.dumps x) = some x) → content.map (ClientBlock.read V) = m.content.map some) := by
  obtain ⟨htold, hne⟩ := told_streamStructuredText h
  have hgen : lastGen s.yields s.gen = some s.gen := if_neg fun hempty => hne (List.isEmpty_iff.1 hempty)
  have hcontent : s.gen.contentParts.flatten = visibleText s.yields := htold.content
  have hparsed : s.gen.parsedOutput = true := htold.parsed
  have hparse : ∀ withTools text, parseGeneration (r.parseFull withTools) s.gen text =
      ⟨orNone (visibleText s.yields), s.gen.reasoning, s.gen.toolCalls⟩ := by
    intro withTools text
    rw [parseGeneration, if_pos hparsed, hcontent]
  have hcalls : streamedCalls r (some s.gen) = if r.useTools then s.gen.toolCalls else [] := by
    unfold streamedCalls
    dsimp only
    rw [hparse]
  refine ⟨⟨contentBlocks V (visibleText s.yields) (if r.useTools then s.gen.toolCalls else []),
    stopReasonOf (some s.gen) (if r.useTools then s.gen.toolCalls else []), r.inputTokens,
    s.gen.tokenIds.length⟩, _, ?_, ?_, rfl, fun hjson => ?_⟩
  · unfold messagesResponse formatMessagesResponse Stream.source
    dsimp only
    rw [hgen, Option.getD_some, hparse, getD_orNone]
    rfl
  · have hevents := messageEvents_exhausted V r s.yields s.gen
    rw [hgen, hcalls] at hevents
    exact hevents
  · rw [List.map_map]
    exact List.map_congr_left fun block _ => ContentBlock.read_wire hjson block

end replies

section evaluated

attribute [local instance] jsonText asciiWords

def letterMessages : MessagesRequest := ⟨true, 3, letterRequest.decode, letterRequest.parseFull⟩

/-- A text and a call of the tool `f` with the argument `k`. -/
def callText : Text :=
  "<|open|>response<|sep|>hi<|close|>response<|sep|><|open|>tools<|sep|><|open|>call tool=\"f\"<|sep|>".toList ++
    "<|open|>argument key=\"k\" type=\"number\"<|sep|>1<|close|>argument<|sep|><|close|>call<|sep|>".toList ++
    "<|close|>tools<|sep|>".toList

def callStream : Except String Stream :=
  streamStructuredText Text letterMessages.decode ⟨400, none, none, false⟩
    [.tokens (callText.map fun c => (c.toNat : ℤ))]

theorem messages_stream_eq_response_letters : ∃ s m content, callStream = .ok s ∧
    messagesResponse Text letterMessages s.source = .ok m ∧
    Client.waiting.receiveAll (messageEvents Text letterMessages s.source) =
      some (.complete m.inputTokens content m.stopReason m.outputTokens) ∧
    content.map (ClientBlock.read Text) = m.content.map some ∧ m.content.length = 2 := by
  have htwo : callStream.toOption.bind (fun s => (messagesResponse Text letterMessages s.source).toOption.map
      (·.content.length)) = some 2 := by
    decide +kernel
  obtain ⟨s, hs⟩ : ∃ s, callStream = .ok s := ⟨_, rfl⟩
  obtain ⟨m, content, hresponse, hstream, -, hread⟩ := messages_stream_eq_response letterMessages hs
  rw [hs, Except.toOption, Option.bind_some, hresponse] at htwo
  exact ⟨s, m, content, hs, hresponse, hstream, hread fun _ => rfl, Option.some.inj htwo⟩

end evaluated

end NanoEngine.Server
