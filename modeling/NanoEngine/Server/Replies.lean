import NanoEngine.Server.Stream

/-!
# NanoEngine.Server.Replies — the two forms of a reply to a chat completion

`parse_generation`, and the end of `chat_completions` of `dlengine/server/openai_server.py`: the events of its
`event_stream` and the message of a request that is not streamed.

* `Source`: the `async for` over `stream_text`, which is exhausted or raises.
* `Told`: what a consumer of structured text has been told is what the generation holds.
* `Assembled.receive`: a client that appends what it gets; a tool call has to come at the next index.
* `chat_stream_eq_response`: for structured text the client ends with the message that is not streamed.
-/

namespace NanoEngine.Server

open Markers Kimi

/-- `parse_generation`; `parseFull` is that of the tool parser. -/
def parseGeneration (parseFull : Text → ParsedOutput) (gen : Generation) (text : Text) : ParsedOutput :=
  if gen.parsedOutput then ⟨orNone gen.contentParts.flatten, gen.reasoning, gen.toolCalls⟩ else parseFull text

/-- How the generator of `stream_text` ends. -/
inductive Ending
  | exhausted (gen : Generation)
  | raised (message : String)

structure Source where
  yields : List Yield
  ending : Ending

def Stream.source (s : Stream) : Source := ⟨s.yields, .exhausted s.gen⟩

/-- The text that is joined while `in_reasoning` is not set. -/
def visibleText (ys : List Yield) : Text := ys.flatMap fun y => if y.2.inReasoning then [] else y.1

def reasoningText (ys : List Yield) : Text := ys.flatMap fun y => if y.2.inReasoning then y.1 else []

@[simp] theorem visibleText_nil : visibleText [] = [] := rfl

@[simp] theorem reasoningText_nil : reasoningText [] = [] := rfl

theorem visibleText_append (ys zs : List Yield) : visibleText (ys ++ zs) = visibleText ys ++ visibleText zs :=
  List.flatMap_append

theorem reasoningText_append (ys zs : List Yield) : reasoningText (ys ++ zs) = reasoningText ys ++ reasoningText zs :=
  List.flatMap_append

theorem visibleText_cons (y : Yield) (ys : List Yield) :
    visibleText (y :: ys) = (if y.2.inReasoning then [] else y.1) ++ visibleText ys := rfl

theorem reasoningText_cons (y : Yield) (ys : List Yield) :
    reasoningText (y :: ys) = (if y.2.inReasoning then y.1 else []) ++ reasoningText ys := rfl

/-! ## Structured text -/

/-- From `a` to `b`, tool calls are only appended, and not without a yield. -/
def CallsGrow : List ToolCall → List Yield → List ToolCall → Prop
  | a, [], b => a = b
  | a, y :: ys, b => a <+: y.2.toolCalls ∧ CallsGrow y.2.toolCalls ys b

theorem CallsGrow.append {a b c : List ToolCall} {ys zs : List Yield} (h : CallsGrow a ys b) (h' : CallsGrow b zs c) :
    CallsGrow a (ys ++ zs) c := by
  induction ys generalizing a with
  | nil =>
    cases h
    exact h'
  | cons y ys ih => exact ⟨h.1, ih h.2⟩

/-- A consumer of the yields knows what was added to the generation. -/
structure Told (gen₀ : Generation) (ys : List Yield) (gen : Generation) : Prop where
  content : gen.contentParts.flatten = gen₀.contentParts.flatten ++ visibleText ys
  reasoning : gen.reasoning.getD [] = gen₀.reasoning.getD [] ++ reasoningText ys
  calls : CallsGrow gen₀.toolCalls ys gen.toolCalls
  parsed : gen.parsedOutput = gen₀.parsedOutput
  parsedAll : ∀ y ∈ ys, y.2.parsedOutput = gen₀.parsedOutput

namespace Told

variable {gen₀ gen₁ gen₂ : Generation} {ys zs : List Yield}

/-- Nothing is yielded and nothing is added. -/
theorem same (hcontent : gen₁.contentParts = gen₀.contentParts) (hreasoning : gen₁.reasoning = gen₀.reasoning)
    (hcalls : gen₁.toolCalls = gen₀.toolCalls) (hparsed : gen₁.parsedOutput = gen₀.parsedOutput) :
    Told gen₀ [] gen₁ where
  content := by rw [hcontent, visibleText_nil, List.append_nil]
  reasoning := by rw [hreasoning, reasoningText_nil, List.append_nil]
  calls := hcalls.symm
  parsed := hparsed
  parsedAll y hy := absurd hy List.not_mem_nil

theorem append (h : Told gen₀ ys gen₁) (h' : Told gen₁ zs gen₂) : Told gen₀ (ys ++ zs) gen₂ where
  content := by rw [h'.content, h.content, visibleText_append, List.append_assoc]
  reasoning := by rw [h'.reasoning, h.reasoning, reasoningText_append, List.append_assoc]
  calls := h.calls.append h'.calls
  parsed := h'.parsed.trans h.parsed
  parsedAll y hy := by
    rcases List.mem_append.1 hy with hy | hy
    · exact h.parsedAll y hy
    · exact (h'.parsedAll y hy).trans h.parsed

theorem applyParsedDelta (gen : Generation) (delta : Delta) :
    Told gen [Server.applyParsedDelta gen delta] (Server.applyParsedDelta gen delta).2 where
  content := by cases delta <;> simp [Server.applyParsedDelta, visibleText]
  reasoning := by cases delta <;> simp [Server.applyParsedDelta, reasoningText]
  calls := by cases delta <;> simp [Server.applyParsedDelta, CallsGrow]
  parsed := by cases delta <;> rfl
  parsedAll y hy := by
    rw [List.mem_singleton.1 hy]
    cases delta <;> rfl

theorem applyParsedDeltas (deltas : List Delta) (gen : Generation) :
    Told gen (Server.applyParsedDeltas deltas gen).1 (Server.applyParsedDeltas deltas gen).2 := by
  induction deltas generalizing gen with
  | nil => exact same rfl rfl rfl rfl
  | cons delta deltas ih => exact (applyParsedDelta gen delta).append (ih _)

/-- A last yield without text. -/
theorem last (gen : Generation) (finishReason : FinishReason) :
    Told gen [([], { gen with finishReason := finishReason })] { gen with finishReason := finishReason } where
  content := by simp [visibleText]
  reasoning := by simp [reasoningText]
  calls := by simp [CallsGrow]
  parsed := rfl
  parsedAll y hy := by rw [List.mem_singleton.1 hy]

end Told

section structured

variable {V : Type} [Json V] {decode : List ℤ → Text} {maxTokens : ℕ} {stops : List Text}

theorem told_incrementalDetokenize {gen₀ gen : Generation} (h : Told gen₀ [] gen) :
    Told gen₀ [] (incrementalDetokenize decode gen).2 := by
  unfold incrementalDetokenize
  dsimp only
  split
  case isTrue => exact h.append (Told.same rfl rfl rfl rfl)
  case isFalse => exact h

theorem told_receive {gen gen' : Generation} {ids : List ℤ} (h : receive maxTokens gen ids = some gen') :
    Told gen [] gen' := by
  unfold receive at h
  split at h <;> cases h
  exact Told.same rfl rfl rfl rfl

variable [WordChars]

theorem told_round (st : StructuredState V) (ids : List ℤ) :
    Told st.gen (st.round decode maxTokens stops ids).1 (st.round decode maxTokens stops ids).2.2.gen := by
  unfold StructuredState.round
  split
  case h_1 => exact Told.same rfl rfl rfl rfl
  case h_2 gen hgen => exact (told_incrementalDetokenize (told_receive hgen)).append (Told.applyParsedDeltas _ _)

theorem told_loop {items : List Item} {st : StructuredState V} {r : List Yield × Bool × List ℤ × StructuredState V}
    (h : st.loop decode maxTokens stops items = .ok r) : Told st.gen r.1 r.2.2.2.gen := by
  induction items generalizing st r with
  | nil =>
    cases h
    exact Told.same rfl rfl rfl rfl
  | cons item items ih =>
    cases item with
    | error message => cases h
    | other => exact ih h
    | tokens ids =>
      rw [StructuredState.loop] at h
      split at h
      case isTrue =>
        cases h
        exact told_round st ids
      case isFalse =>
        cases hrest : (st.round decode maxTokens stops ids).2.2.loop decode maxTokens stops items with
        | error message =>
          rw [hrest] at h
          cases h
        | ok rest =>
          rw [hrest] at h
          cases h
          exact (told_round st ids).append (ih hrest)

theorem told_finish (st : StructuredState V) (stopped : Bool) :
    Told st.gen (st.finish maxTokens stopped).1 (st.finish maxTokens stopped).2 :=
  (Told.applyParsedDeltas _ _).append (Told.last _ _)

/-- **The yields of a structured stream tell all that its generation holds.** -/
theorem told_streamStructuredText {c : StreamConfig} {items : List Item} {s : Stream}
    (h : streamStructuredText V decode c items = .ok s) :
    Told { parsedOutput := true } s.yields s.gen ∧ s.yields ≠ [] := by
  unfold streamStructuredText at h
  dsimp only at h
  cases hloop : (StructuredState.loop decode c.maxTokens (c.stop.getD []) items
      (⟨{ parsedOutput := true }, [], Parser.new c.reasoningOpen⟩ : StructuredState V)) with
  | error message =>
    rw [hloop] at h
    cases h
  | ok r =>
    rw [hloop] at h
    cases h
    refine ⟨(told_loop hloop).append (told_finish _ _), fun hnil => ?_⟩
    simp [StructuredState.finish] at hnil

end structured

/-! ## Chat completions -/

/-- The `delta` of a chunk. -/
structure ChunkDelta where
  reasoningContent : Option Text := none
  content : Option Text := none
  toolCalls : List (ℕ × ToolCall) := []

def ChunkDelta.isEmpty (d : ChunkDelta) : Bool := d.reasoningContent.isNone && d.content.isNone && d.toolCalls.isEmpty

inductive ChatFinish
  | stop | length | toolCalls
  deriving DecidableEq

def FinishReason.chat : FinishReason → ChatFinish
  | .stop => .stop
  | .length => .length

inductive ChatEvent
  | role
  | delta (d : ChunkDelta)
  | final (finishReason : ChatFinish)
  | usage (promptTokens completionTokens : ℕ)
  | error (message : String)
  | done

/-- What `chat_completions` has found out before it generates. -/
structure ChatRequest where
  useTools : Bool
  includeUsage : Bool
  promptTokens : ℕ
  /-- `tokenizer.decode` with `skip_special_tokens` -/
  decode : List ℤ → Text
  /-- `parse_full`, with the tools of the request or with none -/
  parseFull : Bool → Text → ParsedOutput

/-- `enumerate(calls, start)`. -/
def enumerate (calls : List ToolCall) (start : ℕ) : List (ℕ × ToolCall) := (calls.zipIdx start).map Prod.swap

namespace ChatRequest

variable (r : ChatRequest)

/-- `delta_obj`, with the calls beyond the first `count`. -/
def chunkDelta (count : ℕ) (y : Yield) : ChunkDelta where
  reasoningContent := if !y.1.isEmpty && y.2.inReasoning then some y.1 else none
  content := if !y.1.isEmpty && !y.2.inReasoning then some y.1 else none
  toolCalls := if r.useTools && y.2.parsedOutput then enumerate (y.2.toolCalls.drop count) count else []

/-- The loop over `stream_text`: the events, `streamed_reasoning` and `streamed_call_count`. -/
def streamLoop : List Yield → Bool → ℕ → List ChatEvent × Bool × ℕ
  | [], streamedReasoning, count => ([], streamedReasoning, count)
  | y :: ys, streamedReasoning, count =>
    let d := r.chunkDelta count y
    let rest := streamLoop ys (streamedReasoning || d.reasoningContent.isSome)
      (if d.toolCalls.isEmpty then count else y.2.toolCalls.length)
    ((if d.isEmpty then [] else [.delta d]) ++ rest.1, rest.2)

/-- The events behind the loop. -/
def streamEnd (gen : Generation) (streamedReasoning : Bool) (count : ℕ) : List ChatEvent :=
  let fullText := if gen.parsedOutput then [] else r.decode gen.tokenIds
  let parsed := parseGeneration (r.parseFull true) gen fullText
  let toolDelta : ChunkDelta :=
    if r.useTools then
      { reasoningContent := if streamedReasoning then none else parsed.reasoning
        toolCalls := enumerate (parsed.toolCalls.drop count) count }
    else {}
  let finishReason := if r.useTools && !parsed.toolCalls.isEmpty then .toolCalls else gen.finishReason.chat
  (if toolDelta.isEmpty then [] else [.delta toolDelta]) ++ [.final finishReason] ++
    (if r.includeUsage then [.usage r.promptTokens gen.tokenIds.length] else []) ++ [.done]

/-- The generation a consumer ends with that began with an empty one. -/
def handed (yields : List Yield) (gen : Generation) : Generation := if yields.isEmpty then {} else gen

/-- `event_stream`. -/
def stream (src : Source) : List ChatEvent :=
  let loop := r.streamLoop src.yields false 0
  .role :: loop.1 ++
    match src.ending with
    | .exhausted gen => r.streamEnd (handed src.yields gen) loop.2.1 loop.2.2
    | .raised message => [.error message, .done]

end ChatRequest

/-- The one choice of a completion, and its usage. -/
structure ChatMessage where
  content : Text
  reasoningContent : Option Text
  toolCalls : List ToolCall
  finishReason : ChatFinish
  promptTokens : ℕ
  completionTokens : ℕ

/-- The reply that is not streamed; `.error` is that of the engine. -/
def ChatRequest.response (r : ChatRequest) (src : Source) : Except String ChatMessage :=
  match src.ending with
  | .raised message => .error message
  | .exhausted gen =>
    let gen := handed src.yields gen
    let parsed := parseGeneration (r.parseFull r.useTools) gen (visibleText src.yields)
    let reasoning := (orNone (reasoningText src.yields)).or parsed.reasoning
    .ok
      { content := parsed.content.getD []
        reasoningContent := orNone (reasoning.getD [])
        toolCalls := if r.useTools then parsed.toolCalls else []
        finishReason := if r.useTools && !parsed.toolCalls.isEmpty then .toolCalls else gen.finishReason.chat
        promptTokens := r.promptTokens
        completionTokens := gen.tokenIds.length }

/-! ### The client -/

/-- What a client has put together. -/
structure Assembled where
  content : Text := []
  reasoning : Text := []
  toolCalls : List ToolCall := []
  finishReason : Option ChatFinish := none
  usage : Option (ℕ × ℕ) := none
  error : Option String := none
  closed : Bool := false

namespace Assembled

/-- A client; `none` is a reply it cannot put together. -/
def receive (a : Assembled) (e : ChatEvent) : Option Assembled :=
  if a.closed then none
  else
    match e with
    | .role => some a
    | .delta d =>
      if a.finishReason.isNone && decide (d.toolCalls.map Prod.fst =
        List.range' a.toolCalls.length d.toolCalls.length) then
        some { a with
          content := a.content ++ d.content.getD []
          reasoning := a.reasoning ++ d.reasoningContent.getD []
          toolCalls := a.toolCalls ++ d.toolCalls.map Prod.snd }
      else none
    | .final finishReason => if a.finishReason.isNone then some { a with finishReason := some finishReason } else none
    | .usage promptTokens completionTokens =>
      if a.finishReason.isSome then some { a with usage := some (promptTokens, completionTokens) } else none
    | .error message => some { a with error := some message }
    | .done => some { a with closed := true }

def receiveAll (a : Assembled) (es : List ChatEvent) : Option Assembled := es.foldlM receive a

theorem receiveAll_append {a b : Assembled} {es fs : List ChatEvent} (h : a.receiveAll es = some b) :
    a.receiveAll (es ++ fs) = b.receiveAll fs := by
  unfold receiveAll at h ⊢
  rw [List.foldlM_append, h]
  rfl

/-- A client in the middle of the reply. -/
def partway (content reasoning : Text) (toolCalls : List ToolCall) : Assembled :=
  { content := content, reasoning := reasoning, toolCalls := toolCalls }

end Assembled

theorem map_fst_enumerate (calls : List ToolCall) (start : ℕ) :
    (enumerate calls start).map Prod.fst = List.range' start calls.length := by
  rw [enumerate, List.map_map]
  exact List.zipIdx_map_snd start calls

theorem map_snd_enumerate (calls : List ToolCall) (start : ℕ) : (enumerate calls start).map Prod.snd = calls := by
  rw [enumerate, List.map_map]
  exact List.zipIdx_map_fst start calls

theorem length_enumerate (calls : List ToolCall) (start : ℕ) : (enumerate calls start).length = calls.length := by
  rw [enumerate, List.length_map, List.length_zipIdx]

/-- A chunk is appended; an empty one need not be sent. -/
theorem Assembled.receive_delta (content reasoning : Text) (toolCalls calls : List ToolCall) (d : ChunkDelta)
    (hcalls : d.toolCalls = enumerate calls toolCalls.length) :
    (partway content reasoning toolCalls).receiveAll (if d.isEmpty then [] else [.delta d]) =
      some (partway (content ++ d.content.getD []) (reasoning ++ d.reasoningContent.getD []) (toolCalls ++ calls)) := by
  have hlength : d.toolCalls.length = calls.length := by rw [hcalls, length_enumerate]
  split
  case isTrue hempty =>
    simp only [ChunkDelta.isEmpty, Bool.and_eq_true, Option.isNone_iff_eq_none, List.isEmpty_iff] at hempty
    have hnil : calls = [] := List.eq_nil_of_length_eq_zero (by rw [← hlength, hempty.2]; rfl)
    rw [hempty.1.1, hempty.1.2, hnil]
    simp [receiveAll]
  case isFalse =>
    have hfst : d.toolCalls.map Prod.fst = List.range' toolCalls.length d.toolCalls.length := by
      rw [hlength, hcalls, map_fst_enumerate]
    have hsnd : d.toolCalls.map Prod.snd = calls := by rw [hcalls, map_snd_enumerate]
    simp [receiveAll, receive, partway, hfst, hsnd]

/-! ### Both forms -/

section reply

variable {r : ChatRequest}

/-- The calls that the client is told of. -/
def ChatRequest.kept (r : ChatRequest) (calls : List ToolCall) : List ToolCall := if r.useTools then calls else []

theorem chunkDelta_toolCalls {a : List ToolCall} {y : Yield} (hparsed : y.2.parsedOutput = true) :
    (r.chunkDelta (r.kept a).length y).toolCalls =
      enumerate ((r.kept y.2.toolCalls).drop (r.kept a).length) (r.kept a).length := by
  unfold ChatRequest.chunkDelta ChatRequest.kept
  cases huse : r.useTools with
  | false => simp [enumerate]
  | true => simp [hparsed]

theorem chunkDelta_content (count : ℕ) (y : Yield) :
    (r.chunkDelta count y).content.getD [] = if y.2.inReasoning then [] else y.1 := by
  unfold ChatRequest.chunkDelta
  cases y.2.inReasoning <;> cases hy : y.1 <;> simp

theorem chunkDelta_reasoning (count : ℕ) (y : Yield) :
    (r.chunkDelta count y).reasoningContent.getD [] = if y.2.inReasoning then y.1 else [] := by
  unfold ChatRequest.chunkDelta
  cases y.2.inReasoning <;> cases hy : y.1 <;> simp

theorem chunkDelta_reasoning_isSome (count : ℕ) (y : Yield) :
    (r.chunkDelta count y).reasoningContent.isSome = !(if y.2.inReasoning then y.1 else []).isEmpty := by
  unfold ChatRequest.chunkDelta
  cases y.2.inReasoning <;> cases hy : y.1 <;> simp

/-- The calls up to `a` were sent; those of the generation begin with them. -/
theorem kept_drop {a b : List ToolCall} (h : a <+: b) : r.kept a ++ (r.kept b).drop (r.kept a).length = r.kept b := by
  unfold ChatRequest.kept
  split
  case isTrue => exact List.prefix_iff_eq_append.1 h
  case isFalse => rfl

/-- The loop sends the texts and the calls that the yields bring. -/
theorem streamLoop_spec {a b : List ToolCall} {ys : List Yield} (hgrow : CallsGrow a ys b)
    (hparsed : ∀ y ∈ ys, y.2.parsedOutput = true) (content reasoning : Text) (streamed : Bool) :
    (Assembled.partway content reasoning (r.kept a)).receiveAll (r.streamLoop ys streamed (r.kept a).length).1 =
        some (.partway (content ++ visibleText ys) (reasoning ++ Server.reasoningText ys) (r.kept b)) ∧
      (r.streamLoop ys streamed (r.kept a).length).2.1 = (streamed || !(Server.reasoningText ys).isEmpty) ∧
      (r.streamLoop ys streamed (r.kept a).length).2.2 = (r.kept b).length := by
  induction ys generalizing a content reasoning streamed with
  | nil =>
    cases hgrow
    simp [ChatRequest.streamLoop, Assembled.receiveAll]
  | cons y ys ih =>
    obtain ⟨hstarts, hgrow⟩ := hgrow
    have hy := hparsed y List.mem_cons_self
    have hcalls := chunkDelta_toolCalls (r := r) (a := a) hy
    have happend := kept_drop (r := r) hstarts
    -- the counter of streamed calls follows the calls that the yield carries
    have hcount : (if (r.chunkDelta (r.kept a).length y).toolCalls.isEmpty then (r.kept a).length
        else y.2.toolCalls.length) = (r.kept y.2.toolCalls).length := by
      have hlength := congrArg List.length happend
      rw [List.length_append] at hlength
      split
      case isTrue hempty =>
        rw [hcalls, List.isEmpty_iff_length_eq_zero, length_enumerate] at hempty
        omega
      case isFalse hempty =>
        unfold ChatRequest.kept at hempty hcalls ⊢
        cases huse : r.useTools with
        | true => rfl
        | false => simp [ChatRequest.chunkDelta, huse] at hempty
    have hreceive := Assembled.receive_delta content reasoning (r.kept a) _ (r.chunkDelta (r.kept a).length y) hcalls
    rw [happend, chunkDelta_content, chunkDelta_reasoning] at hreceive
    rw [ChatRequest.streamLoop]
    dsimp only
    rw [hcount, Assembled.receiveAll_append hreceive, chunkDelta_reasoning_isSome]
    obtain ⟨hsent, hstreamed, hsentCalls⟩ := ih hgrow (fun z hz => hparsed z (List.mem_cons_of_mem _ hz))
      (content ++ if y.2.inReasoning then [] else y.1) (reasoning ++ if y.2.inReasoning then y.1 else [])
      (streamed || !(if y.2.inReasoning then y.1 else []).isEmpty)
    refine ⟨?_, ?_, hsentCalls⟩
    · rw [hsent, visibleText_cons, reasoningText_cons, List.append_assoc, List.append_assoc]
    · rw [hstreamed, reasoningText_cons]
      cases (if y.2.inReasoning then y.1 else []) <;> simp

theorem getD_orNone (text : Text) : (orNone text).getD [] = text := by
  unfold orNone
  split
  case isTrue h => exact (List.isEmpty_iff.1 h).symm
  case isFalse => rfl

/-- The finish reason of both forms. -/
def ChatRequest.finishOf (r : ChatRequest) (gen : Generation) : ChatFinish :=
  if r.useTools && !gen.toolCalls.isEmpty then .toolCalls else gen.finishReason.chat

/-- The end of a stream adds no text and no calls to what was sent. -/
theorem streamEnd_spec {gen : Generation} (hparsed : gen.parsedOutput = true) (content reasoning : Text)
    {streamed : Bool} (hstreamed : streamed = false → gen.reasoning.getD [] = []) :
    (Assembled.partway content reasoning (r.kept gen.toolCalls)).receiveAll
        (r.streamEnd gen streamed (r.kept gen.toolCalls).length) =
      some
        { content := content
          reasoning := reasoning
          toolCalls := r.kept gen.toolCalls
          finishReason := some (r.finishOf gen)
          usage := if r.includeUsage then some (r.promptTokens, gen.tokenIds.length) else none
          closed := true } := by
  have hdelta : ∀ d : ChunkDelta, d.content = none → d.reasoningContent.getD [] = [] →
      d.toolCalls = enumerate [] (r.kept gen.toolCalls).length →
      (Assembled.partway content reasoning (r.kept gen.toolCalls)).receiveAll (if d.isEmpty then [] else [.delta d]) =
        some (.partway content reasoning (r.kept gen.toolCalls)) := by
    intro d hc hr hcalls
    have hreceive := Assembled.receive_delta content reasoning (r.kept gen.toolCalls) [] d hcalls
    rwa [hc, hr, Option.getD_none, List.append_nil, List.append_nil, List.append_nil] at hreceive
  unfold ChatRequest.streamEnd
  dsimp only
  rw [List.append_assoc, List.append_assoc, Assembled.receiveAll_append (hdelta _ ?_ ?_ ?_)]
  · unfold parseGeneration ChatRequest.finishOf
    rw [if_pos hparsed]
    cases r.includeUsage <;> rfl
  · split <;> rfl
  · unfold parseGeneration
    rw [if_pos hparsed]
    cases hs : streamed with
    | true => split <;> rfl
    | false =>
      split
      · exact hstreamed hs
      · rfl
  · unfold parseGeneration ChatRequest.kept
    rw [if_pos hparsed]
    split
    · rw [List.drop_length]
    · rfl

variable {V : Type} [Json V] [WordChars] {decode : List ℤ → Text}

/-- **A streamed reply is the reply that is not streamed.**  For every structured stream the client can put the events
together, and ends with the same text, reasoning, tool calls, finish reason and usage. -/
theorem chat_stream_eq_response (r : ChatRequest) {c : StreamConfig} {items : List Item} {s : Stream}
    (h : streamStructuredText V decode c items = .ok s) :
    ∃ a m, Assembled.receiveAll {} (r.stream s.source) = some a ∧ r.response s.source = .ok m ∧
      a.content = m.content ∧ a.reasoning = m.reasoningContent.getD [] ∧ a.toolCalls = m.toolCalls ∧
      a.finishReason = some m.finishReason ∧ a.error = none ∧ a.closed = true ∧
      a.usage = if r.includeUsage then some (m.promptTokens, m.completionTokens) else none := by
  obtain ⟨htold, hne⟩ := told_streamStructuredText h
  have hgen : ChatRequest.handed s.yields s.gen = s.gen := if_neg fun hempty => hne (List.isEmpty_iff.1 hempty)
  have hcontent : s.gen.contentParts.flatten = visibleText s.yields := htold.content
  have hreasoning : s.gen.reasoning.getD [] = reasoningText s.yields := htold.reasoning
  have hparsed : s.gen.parsedOutput = true := htold.parsed
  have hkept : r.kept [] = [] := by
    unfold ChatRequest.kept
    split <;> rfl
  obtain ⟨hloop, hstreamed, hcount⟩ := streamLoop_spec (r := r) htold.calls htold.parsedAll [] [] false
  rw [hkept, List.nil_append, List.nil_append] at hloop
  rw [hkept, Bool.false_or] at hstreamed
  rw [hkept] at hcount
  have hnone : (!(reasoningText s.yields).isEmpty) = false → s.gen.reasoning.getD [] = [] := by
    intro hempty
    rw [hreasoning]
    simpa using hempty
  have hend := streamEnd_spec (r := r) hparsed (visibleText s.yields) (reasoningText s.yields) hnone
  have hparse : parseGeneration (r.parseFull r.useTools) s.gen (visibleText s.yields) =
      ⟨orNone (visibleText s.yields), s.gen.reasoning, s.gen.toolCalls⟩ := by
    rw [parseGeneration, if_pos hparsed, hcontent]
  have hresponse : r.response s.source = .ok
      { content := visibleText s.yields
        reasoningContent := orNone (reasoningText s.yields)
        toolCalls := r.kept s.gen.toolCalls
        finishReason := r.finishOf s.gen
        promptTokens := r.promptTokens
        completionTokens := s.gen.tokenIds.length } := by
    -- a reasoning of no characters is `none` on one side and empty on the other
    have hor : ((orNone (reasoningText s.yields)).or s.gen.reasoning).getD [] = reasoningText s.yields := by
      rw [← hreasoning]
      cases s.gen.reasoning with
      | none => rfl
      | some text => cases text <;> rfl
    unfold ChatRequest.response Stream.source
    dsimp only
    rw [hgen, hparse]
    dsimp only
    rw [hor, getD_orNone]
    rfl
  refine ⟨_, _, Eq.trans ?_ hend, hresponse, rfl, (getD_orNone _).symm, rfl, rfl, rfl, rfl, rfl⟩
  rw [← Assembled.receiveAll_append hloop]
  unfold ChatRequest.stream Stream.source
  dsimp only [List.length_nil] at hstreamed hcount ⊢
  rw [hstreamed, hcount, hgen]
  rfl

end reply

section evaluated

/-- A request with tools for a model whose tokens are single characters. -/
def letterRequest : ChatRequest :=
  ⟨true, true, 3, fun ids => ids.map fun id => Char.ofNat id.toNat, fun _ text => ⟨some text, none, []⟩⟩

attribute [local instance] jsonText asciiWords

theorem chat_stream_eq_response_letters : ∃ s a m,
    streamStructuredText Text letterRequest.decode ⟨4, none, none, true⟩ [.tokens [104], .other, .tokens [105]] =
        .ok s ∧
      Assembled.receiveAll {} (letterRequest.stream s.source) = some a ∧ letterRequest.response s.source = .ok m ∧
      a.reasoning = m.reasoningContent.getD [] := by
  obtain ⟨s, hs⟩ : ∃ s, streamStructuredText Text letterRequest.decode ⟨4, none, none, true⟩
      [.tokens [104], .other, .tokens [105]] = .ok s := ⟨_, rfl⟩
  obtain ⟨a, m, hstream, hresponse, -, hreasoning, -⟩ := chat_stream_eq_response letterRequest hs
  exact ⟨s, a, m, hs, hstream, hresponse, hreasoning⟩

end evaluated

end NanoEngine.Server
