import NanoEngine.Kimi.Parser

/-!
# NanoEngine.Server.Stream — from the tokens of a request to the text of its client

`_incremental_detokenize`, `stream_text`, `_stream_text_raw` and `_stream_structured_text` of
`dlengine/server/openai_server.py`.

* `decode` is the tokenizer's, with the flags the tool parser asks for.
* The queue of a request is the list of its items up to the closing `None`.  An item that has neither tokens nor an
  error is `other`.
* There is one generation object, and every yield hands it over: a consumer that was given it sees its last state.
-/

namespace NanoEngine.Server

open Markers Kimi

inductive FinishReason
  | stop | length
  deriving DecidableEq

/-- `_Generation`. -/
structure Generation where
  tokenIds : List ℤ := []
  finishReason : FinishReason := .stop
  prefixOffset : ℕ := 0
  readOffset : ℕ := 0
  toolCalls : List ToolCall := []
  parsedOutput : Bool := false
  contentParts : List Text := []
  reasoning : Option Text := none
  inReasoning : Bool := false
  deriving DecidableEq

inductive Item
  | tokens (ids : List ℤ)
  | error (message : String)
  | other

/-- The text of a delta and the generation as it is then. -/
abbrev Yield := Text × Generation

/-- What is left when the generator is exhausted: the yields, the generation, and the tokens it has read. -/
structure Stream where
  yields : List Yield
  gen : Generation
  received : List ℤ

/-- The generation the consumer ends with: its own empty one when nothing was yielded. -/
def Stream.handed (s : Stream) : Generation := if s.yields.isEmpty then {} else s.gen

/-- The arguments of `stream_text`, with `None` for no stop strings and no markers. -/
structure StreamConfig where
  maxTokens : ℕ
  stop : Option (List Text)
  holdMarkers : Option (List Text)
  reasoningOpen : Bool

/-! ## Searching -/

/-- One round of `_earliest_stop`. -/
def earlier (best idx : Option ℕ) : Option ℕ :=
  match idx, best with
  | none, best => best
  | some idx, none => some idx
  | some idx, some b => if idx < b then some idx else some b

/-- `_earliest_stop`. -/
def earliestStop (text : Text) (stops : List Text) : Option ℕ :=
  stops.foldl (fun best s => earlier best (find s text)) none

/-- `_partial_stop_holdback`. -/
def partialStopHoldback (text : Text) (stops : List Text) : ℕ :=
  stops.foldl (fun hold s => max hold (overlapFrom text s 0 (min (s.length - 1) text.length))) 0

def thinkTag : Text := "<think>".toList

/-- `reasoning_close_marker` of the parsers that read raw text. -/
def reasoningCloseMarker : Text := "</think>".toList

/-- The loop of `_skip_redundant_think_openers`. -/
def skipOpeners (text : Text) : ℕ → ℕ → ℕ
  | 0, pos => pos
  | fuel + 1, pos => if thinkTag.isPrefixOf (text.drop pos) then skipOpeners text fuel (pos + thinkTag.length) else pos

/-- `_skip_redundant_think_openers`. -/
def skipRedundantThinkOpeners (text : Text) (start : ℕ) : ℕ × Bool :=
  let pos := skipOpeners text text.length start
  (pos, (text.drop pos).isEmpty || (text.drop pos).isPrefixOf thinkTag)

/-- `text.find(marker, start)`. -/
def findFrom (marker text : Text) (start : ℕ) : Option ℕ := (find marker (text.drop start)).map (· + start)

/-- `text[start:stop]`. -/
def slice (text : Text) (start stop : ℕ) : Text := (text.take stop).drop start

/-! ## Tokens -/

section detokenize

variable (decode : List ℤ → Text)

/-- `_incremental_detokenize`: nothing while the last character is incomplete. -/
def incrementalDetokenize (gen : Generation) : Text × Generation :=
  let prefixText := decode ((gen.tokenIds.take gen.readOffset).drop gen.prefixOffset)
  let newText := decode (gen.tokenIds.drop gen.prefixOffset)
  if prefixText.length < newText.length ∧ newText.getLast? ≠ some (Char.ofNat 0xfffd) then
    (newText.drop prefixText.length, { gen with prefixOffset := gen.readOffset, readOffset := gen.tokenIds.length })
  else ([], gen)

/-- The tokens of an item, not beyond the limit; `none` when the limit was reached before. -/
def receive (maxTokens : ℕ) (gen : Generation) (ids : List ℤ) : Option Generation :=
  if maxTokens ≤ gen.tokenIds.length then none
  else some { gen with tokenIds := gen.tokenIds ++ ids.take (maxTokens - gen.tokenIds.length) }

end detokenize

/-! ## Raw text -/

/-- The variables of `_stream_text_raw`. -/
structure RawState where
  gen : Generation
  text : Text
  emitted : ℕ
  holdingMarker : Bool
  reasoningActive : Bool
  dropRedundantThinkOpeners : Bool

namespace RawState

def init (reasoningOpen : Bool) : RawState := ⟨{}, [], 0, false, reasoningOpen, reasoningOpen⟩

/-- A yield on the reasoning channel. -/
def sendReasoning (st : RawState) (stop : ℕ) : List Yield × RawState :=
  let chunk := slice st.text st.emitted stop
  let gen := { st.gen with inReasoning := true, reasoning := some (st.gen.reasoning.getD [] ++ chunk) }
  ([(chunk, gen)], { st with gen := gen })

/-- The reasoning behind the openers: the yields, whether the round goes on with content, and the state. -/
def reasoningText (st : RawState) : List Yield × Bool × RawState :=
  match findFrom reasoningCloseMarker st.text st.emitted with
  | none =>
    let safe := st.text.length - partialStopHoldback st.text [reasoningCloseMarker]
    if st.emitted < safe then
      let r := st.sendReasoning safe
      (r.1, false, { r.2 with emitted := safe })
    else ([], false, st)
  | some close =>
    let r := if st.emitted < close then st.sendReasoning close else ([], st)
    (r.1, true, { r.2 with
      emitted := close + reasoningCloseMarker.length
      reasoningActive := false
      gen := { r.2.gen with inReasoning := false } })

/-- A round while the reasoning is open. -/
def reasoningRound (st : RawState) : List Yield × Bool × RawState :=
  if st.dropRedundantThinkOpeners then
    let skip := skipRedundantThinkOpeners st.text st.emitted
    let st := { st with emitted := skip.1, dropRedundantThinkOpeners := skip.2 }
    if skip.2 then ([], false, st) else st.reasoningText
  else st.reasoningText

/-- The rest of a round: the yields, whether a stop string was hit, and the state. -/
def contentRound (stops markers : List Text) (st : RawState) : List Yield × Bool × RawState :=
  match earliestStop st.text stops with
  | some idx =>
    if st.emitted < idx then ([(slice st.text st.emitted idx, st.gen)], true, { st with emitted := idx })
    else ([], true, st)
  | none =>
    match (if st.holdingMarker then none else earliestStop st.text markers) with
    | some midx =>
      if st.emitted < midx then
        ([(slice st.text st.emitted midx, st.gen)], false, { st with holdingMarker := true, emitted := midx })
      else ([], false, { st with holdingMarker := true })
    | none =>
      let safe := st.text.length - partialStopHoldback st.text (stops ++ markers)
      if st.holdingMarker then ([], false, st)
      else if st.emitted < safe then ([(slice st.text st.emitted safe, st.gen)], false, { st with emitted := safe })
      else ([], false, st)

/-- A round behind `text += delta`. -/
def textRound (stops markers : List Text) (st : RawState) : List Yield × Bool × RawState :=
  if st.reasoningActive then
    let r := st.reasoningRound
    if r.2.1 then
      let c := r.2.2.contentRound stops markers
      (r.1 ++ c.1, c.2)
    else (r.1, false, r.2.2)
  else st.contentRound stops markers

/-- A round for an item with tokens. -/
def round (decode : List ℤ → Text) (maxTokens : ℕ) (stops markers : List Text) (st : RawState) (ids : List ℤ) :
    List Yield × Bool × RawState :=
  match receive maxTokens st.gen ids with
  | none => ([], false, st)
  | some gen =>
    let r := incrementalDetokenize decode gen
    if r.1.isEmpty then ([], false, { st with gen := r.2 })
    else { st with gen := r.2, text := st.text ++ r.1 }.textRound stops markers

/-- The loop over the queue: the yields, whether a stop string was hit, the tokens read, and the state. -/
def loop (decode : List ℤ → Text) (maxTokens : ℕ) (stops markers : List Text) :
    List Item → RawState → Except String (List Yield × Bool × List ℤ × RawState)
  | [], st => .ok ([], false, [], st)
  | .error message :: _, _ => .error message
  | .other :: items, st => loop decode maxTokens stops markers items st
  | .tokens ids :: items, st =>
    let r := st.round decode maxTokens stops markers ids
    if r.2.1 then .ok (r.1, true, ids, r.2.2)
    else do
      let rest ← loop decode maxTokens stops markers items r.2.2
      .ok (r.1 ++ rest.1, rest.2.1, ids ++ rest.2.2.1, rest.2.2.2)

/-- What is flushed when the queue is closed. -/
def flush (st : RawState) : List Yield × RawState :=
  if st.reasoningActive && decide (st.emitted < st.text.length) then st.sendReasoning st.text.length
  else if !st.holdingMarker && !st.reasoningActive && decide (st.emitted < st.text.length) then
    let gen := { st.gen with inReasoning := false }
    ([(st.text.drop st.emitted, gen)], { st with gen := gen })
  else ([], st)

/-- The end of `_stream_text_raw`. -/
def finish (maxTokens : ℕ) (stopped : Bool) (st : RawState) : List Yield × Generation :=
  let r := if stopped then ([], st) else st.flush
  let finishReason := if stopped then .stop else if maxTokens ≤ r.2.gen.tokenIds.length then .length else .stop
  let gen := { r.2.gen with finishReason := finishReason }
  (r.1 ++ if r.2.holdingMarker && decide (r.2.emitted = 0) then [([], gen)] else [], gen)

end RawState

/-- `_stream_text_raw`. -/
def streamTextRaw (decode : List ℤ → Text) (c : StreamConfig) (items : List Item) : Except String Stream := do
  let r ← (RawState.init c.reasoningOpen).loop decode c.maxTokens (c.stop.getD []) (c.holdMarkers.getD []) items
  let f := r.2.2.2.finish c.maxTokens r.2.1
  .ok ⟨r.1 ++ f.1, f.2, r.2.2.1⟩

/-! ## Structured text -/

/-- `_apply_parsed_delta`. -/
def applyParsedDelta (gen : Generation) : Delta → Yield
  | .reasoning text => (text, { gen with inReasoning := true, reasoning := some (gen.reasoning.getD [] ++ text) })
  | .content text => (text, { gen with inReasoning := false, contentParts := gen.contentParts ++ [text] })
  | .toolCall call => ([], { gen with inReasoning := false, toolCalls := gen.toolCalls ++ [call] })

def applyParsedDeltas : List Delta → Generation → List Yield × Generation
  | [], gen => ([], gen)
  | delta :: deltas, gen =>
    let y := applyParsedDelta gen delta
    let rest := applyParsedDeltas deltas y.2
    (y :: rest.1, rest.2)

section structured

variable {V : Type} [Json V] [WordChars]

/-- The variables of `_stream_structured_text`. -/
structure StructuredState (V : Type) where
  gen : Generation
  pending : Text
  parser : Parser V

/-- A round for an item with tokens: the yields, whether a stop string was hit, and the state. -/
def StructuredState.round (decode : List ℤ → Text) (maxTokens : ℕ) (stops : List Text)
    (st : StructuredState V) (ids : List ℤ) :
    List Yield × Bool × StructuredState V :=
  match receive maxTokens st.gen ids with
  | none => ([], false, st)
  | some gen =>
    let r := incrementalDetokenize decode gen
    let pending := st.pending ++ r.1
    let cut := earliestStop pending stops
    let safe := cut.getD (pending.length - partialStopHoldback pending stops)
    let fed := st.parser.feed (pending.take safe)
    let y := applyParsedDeltas fed.1 r.2
    (y.1, cut.isSome, ⟨y.2, if cut.isSome then [] else pending.drop safe, fed.2⟩)

def StructuredState.loop (decode : List ℤ → Text) (maxTokens : ℕ) (stops : List Text) :
    List Item → StructuredState V → Except String (List Yield × Bool × List ℤ × StructuredState V)
  | [], st => .ok ([], false, [], st)
  | .error message :: _, _ => .error message
  | .other :: items, st => loop decode maxTokens stops items st
  | .tokens ids :: items, st =>
    let r := st.round decode maxTokens stops ids
    if r.2.1 then .ok (r.1, true, ids, r.2.2)
    else do
      let rest ← loop decode maxTokens stops items r.2.2
      .ok (r.1 ++ rest.1, rest.2.1, ids ++ rest.2.2.1, rest.2.2.2)

/-- The end of `_stream_structured_text`: the last yield carries no text. -/
def StructuredState.finish (maxTokens : ℕ) (stopped : Bool) (st : StructuredState V) : List Yield × Generation :=
  let fed := st.parser.feed st.pending
  let y := applyParsedDeltas (fed.1 ++ fed.2.finish) st.gen
  let finishReason := if stopped || decide (y.2.tokenIds.length < maxTokens) then .stop else .length
  let gen := { y.2 with finishReason := finishReason }
  (y.1 ++ [([], gen)], gen)

variable (V)

/-- `_stream_structured_text`. -/
def streamStructuredText (decode : List ℤ → Text) (c : StreamConfig)
    (items : List Item) : Except String Stream := do
  let st : StructuredState V := ⟨{ parsedOutput := true }, [], Parser.new c.reasoningOpen⟩
  let r ← st.loop decode c.maxTokens (c.stop.getD []) items
  let f := r.2.2.2.finish c.maxTokens r.2.1
  .ok ⟨r.1 ++ f.1, f.2, r.2.2.1⟩

/-- `stream_text`: by the kind of the tool parser. -/
def streamText (structured : Bool) (decode : List ℤ → Text) (c : StreamConfig) (items : List Item) :
    Except String Stream :=
  if structured then streamStructuredText V decode c items else streamTextRaw decode c items

end structured

end NanoEngine.Server
