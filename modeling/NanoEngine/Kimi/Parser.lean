import NanoEngine.Lib.Markers

/-!
# NanoEngine.Kimi.Parser — the Kimi K3 channel parser

`KimiK3StreamParser` of `dlengine/server/kimi_k3_parser.py` and `KimiK3ToolParser` of `dlengine/server/tool_parser.py`.

* A Python string is the list of its characters; a `dict` is the list of its entries in the order of insertion.
* `json` and the characters beyond ASCII that `\w` matches are parameters.
* `argument_parts` is only ever joined: `argumentText` is the joined text.
* `feed` runs its loop with the length of `pending` as fuel: every step that makes progress shortens `pending`.
-/

namespace NanoEngine.Kimi

open Markers

abbrev Text := List Char

/-- The module `json` on values of type `V`; `loads` is `none` when it raises `JSONDecodeError`. -/
class Json (V : Type) where
  loads : Text → Option V
  dumps : V → Text
  string : Text → V
  object : List (Text × V) → V

/-- The characters beyond ASCII that `\w` matches. -/
class WordChars where
  beyondAscii : Char → Bool

/-- `json` on texts that are their own values. -/
@[reducible] def jsonText : Json Text where
  loads := some
  dumps := id
  string text := "\"".toList ++ text ++ "\"".toList
  object entries := "\x7b".toList ++
    ", ".toList.intercalate (entries.map (fun e => "\"".toList ++ e.1 ++ "\": ".toList ++ e.2)) ++ "\x7d".toList

/-- No character beyond ASCII. -/
@[reducible] def asciiWords : WordChars := ⟨fun _ => false⟩

/-! ## Strings -/

/-- The characters of `str.isspace`. -/
def isSpace (c : Char) : Bool :=
  let n := c.toNat
  (9 ≤ n && n ≤ 13) || (28 ≤ n && n ≤ 32) || n == 0x85 || n == 0xa0 || n == 0x1680 ||
    (0x2000 ≤ n && n ≤ 0x200a)
    || n == 0x2028 || n == 0x2029 || n == 0x202f || n == 0x205f || n == 0x3000

/-- `not text.strip()`. -/
def isBlank (text : Text) : Bool := text.all isSpace

def strip (text : Text) : Text := ((text.dropWhile isSpace).reverse.dropWhile isSpace).reverse

/-- `text.split(None, 1)`: the first word and the rest, `none` when there is no word. -/
def splitWord (text : Text) : Option (Text × Text) :=
  let text := text.dropWhile isSpace
  if text.isEmpty then none
  else some (text.takeWhile (fun c => !isSpace c), (text.dropWhile (fun c => !isSpace c)).dropWhile isSpace)

/-- The loop of `str.replace`; `skip` characters of a match are still to be passed over. -/
def replaceFrom (old new : Text) : ℕ → Text → Text
  | _, [] => []
  | skip + 1, _ :: text => replaceFrom old new skip text
  | 0, c :: text =>
    if old.isPrefixOf (c :: text) then new ++ replaceFrom old new (old.length - 1) text
    else c :: replaceFrom old new 0 text

def replace (old new text : Text) : Text := replaceFrom old new 0 text

/-- `d[key] = value`: a new key goes to the end. -/
def dictSet {β : Type} (d : List (Text × β)) (key : Text) (value : β) : List (Text × β) :=
  if d.any (fun e => decide (e.1 = key)) then d.map (fun e => if e.1 = key then (key, value) else e)
  else d ++ [(key, value)]

def dictGet {β : Type} (d : List (Text × β)) (key : Text) : Option β :=
  (d.find? (fun e => decide (e.1 = key))).map (·.2)

/-! ## The grammar -/

def thinkOpen : Text := "<|open|>think<|sep|>".toList
def thinkClose : Text := "<|close|>think<|sep|>".toList
def responseOpen : Text := "<|open|>response<|sep|>".toList
def responseClose : Text := "<|close|>response<|sep|>".toList
def toolsOpen : Text := "<|open|>tools<|sep|>".toList
def toolsClose : Text := "<|close|>tools<|sep|>".toList
def messageClose : Text := "<|close|>message<|sep|>".toList
def endOfMessage : Text := "<|end_of_msg|>".toList
def openTag : Text := "<|open|>".toList
def closeTag : Text := "<|close|>".toList
def sepTag : Text := "<|sep|>".toList
def argumentClose : Text := "<|close|>argument<|sep|>".toList

section attrs

variable [WordChars]

/-- `\w`. -/
def isWordChar (c : Char) : Bool := c.isAlphanum || c == '_' || (128 ≤ c.toNat && WordChars.beyondAscii c)

/-- A match of `_ATTR_RE` at the start of the text: key, value and what follows. -/
def attrAt (raw : Text) : Option (Text × Text × Text) :=
  let key := raw.takeWhile isWordChar
  match raw.dropWhile isWordChar with
  | '=' :: '"' :: rest =>
    match rest.dropWhile (fun c => decide (c ≠ '"')) with
    | '"' :: after => if key.isEmpty then none else some (key, rest.takeWhile (fun c => decide (c ≠ '"')), after)
    | _ => none
  | _ => none

def unescape (value : Text) : Text :=
  replace "&amp;".toList "&".toList (replace "&quot;".toList "\"".toList value)

/-- The loop of `_attrs` over the matches. -/
def attrsFrom : ℕ → Text → List (Text × Text) → List (Text × Text)
  | 0, _, d => d
  | fuel + 1, raw, d =>
    match raw with
    | [] => d
    | _ :: tail =>
      match attrAt raw with
      | some (key, value, after) => attrsFrom fuel after (dictSet d key (unescape value))
      | none => attrsFrom fuel tail d

/-- `_attrs`. -/
def attrs (raw : Text) : List (Text × Text) := attrsFrom raw.length raw []

end attrs

/-! ## The parser -/

inductive Channel
  | start | think | response | tools | call | argument | between | done
  deriving DecidableEq

structure ToolCall where
  name : Text
  arguments : Text
  deriving DecidableEq

/-- `ParsedDelta`: one of its fields is set. -/
inductive Delta
  | reasoning (text : Text)
  | content (text : Text)
  | toolCall (call : ToolCall)

structure Parser (V : Type) where
  state : Channel
  pending : Text
  reasoningEmitted : Bool
  callName : Text
  arguments : List (Text × V)
  argumentAttrs : List (Text × Text)
  argumentText : Text

namespace Parser

variable {V : Type}

def new (reasoningOpen : Bool) : Parser V :=
  ⟨if reasoningOpen then .think else .start, [], false, [], [], [], []⟩

/-- Whitespace between the channels is no content. -/
def skipsBlank (p : Parser V) : Bool := decide (p.state = .start) || decide (p.state = .between)

/-- `_text`. -/
def text (p : Parser V) (t : Text) : List Delta × Parser V :=
  if t.isEmpty then ([], p)
  else if p.state = .think then ([.reasoning t], { p with reasoningEmitted := true })
  else if p.skipsBlank then
    if isBlank t then ([], p) else ([.content t], { p with state := .response })
  else ([.content t], p)

/-- `_transitions`. -/
def transitions (p : Parser V) : List (Text × Channel) :=
  [(messageClose, .done), (endOfMessage, .done), (toolsOpen, .tools)] ++
    match p.state with
    | .think => [(thinkClose, .between), (responseOpen, .response)] ++
        if p.reasoningEmitted then [] else [(thinkOpen, .think)]
    | .response => [(responseClose, .between)]
    | _ => [(thinkOpen, .think), (thinkClose, .between), (responseOpen, .response), (responseClose, .between)]

def markers (p : Parser V) : List Text := p.transitions.map (·.1)

/-- `_channel_step`: the deltas, whether there was progress, and the parser after it. -/
def channelStep (p : Parser V) : List Delta × Bool × Parser V :=
  match findFirst p.markers p.pending with
  | some (position, marker) =>
    let before := p.pending.take position
    if p.skipsBlank && !isBlank before then
      let r := { p with pending := p.pending.drop position }.text before
      (r.1, true, r.2)
    else
      let r := p.text before
      (r.1, true, { r.2 with
        pending := p.pending.drop (position + marker.length)
        state := (dictGet p.transitions marker).getD p.state })
  | none =>
    let size := p.pending.length - overlap p.markers p.pending
    if size = 0 || p.skipsBlank && isBlank (p.pending.take size) then ([], false, p)
    else
      let r := { p with pending := p.pending.drop size }.text (p.pending.take size)
      (r.1, true, r.2)

variable [Json V]

/-- The value of an argument: the text itself, or what it says as JSON. -/
def argumentValue (p : Parser V) (raw : Text) : V :=
  if (dictGet p.argumentAttrs "type".toList).getD "string".toList ≠ "string".toList then
    (Json.loads raw).getD (Json.string raw)
  else Json.string raw

/-- `_argument_step`. -/
def argumentStep (p : Parser V) : List Delta × Bool × Parser V :=
  match find argumentClose p.pending with
  | none =>
    let size := p.pending.length - overlap [argumentClose] p.pending
    ([], decide (size ≠ 0), { p with
      argumentText := p.argumentText ++ p.pending.take size
      pending := p.pending.drop size })
  | some position =>
    let raw := p.argumentText ++ p.pending.take position
    let key := (dictGet p.argumentAttrs "key".toList).getD []
    ([], true, { p with
      pending := p.pending.drop (position + argumentClose.length)
      arguments := if key.isEmpty then p.arguments else dictSet p.arguments key (p.argumentValue raw)
      argumentText := []
      state := .call })

variable [WordChars]

/-- What a tag does: its marker, its name and its attributes. -/
def tag (p : Parser V) (marker name : Text) (raw : Text) : List Delta × Parser V :=
  if marker = openTag ∧ name = "call".toList then
    ([], { p with callName := (dictGet (attrs raw) "tool".toList).getD [], arguments := [], state := .call })
  else if p.state = .call ∧ marker = openTag ∧ name = "argument".toList then
    ([], { p with argumentAttrs := attrs raw, argumentText := [], state := .argument })
  else if p.state = .call ∧ marker = closeTag ∧ name = "call".toList then
    if p.callName.isEmpty then ([], { p with state := .tools })
    else ([.toolCall ⟨p.callName, Json.dumps (Json.object p.arguments)⟩],
      { p with state := .tools, callName := [], arguments := [] })
  else if marker = closeTag ∧ name = "tools".toList then
    ([], { p with state := .between, callName := [], arguments := [] })
  else if marker = closeTag ∧ name = "message".toList then ([], { p with state := .done })
  else ([], p)

/-- `_container_step`. -/
def containerStep (p : Parser V) : List Delta × Bool × Parser V :=
  let markers := [openTag, closeTag, endOfMessage]
  match findFirst markers p.pending with
  | none =>
    let keep := overlap markers p.pending
    ([], false, { p with pending := p.pending.drop (p.pending.length - keep) })
  | some (position, marker) =>
    let p := { p with pending := p.pending.drop position }
    if marker = endOfMessage then ([], true, { p with state := .done, pending := [] })
    else
      let body := p.pending.drop marker.length
      match find sepTag body with
      | none => ([], false, p)
      | some size =>
        let p := { p with pending := body.drop (size + sepTag.length) }
        match splitWord (strip (body.take size)) with
        | none => ([], true, p)
        | some (name, raw) =>
          let r := p.tag marker name raw
          (r.1, true, r.2)

/-- One round of the loop of `feed`. -/
def step (p : Parser V) : List Delta × Bool × Parser V :=
  match p.state with
  | .done => ([], false, { p with pending := [] })
  | .argument => p.argumentStep
  | .tools => p.containerStep
  | .call => p.containerStep
  | _ => p.channelStep

/-- The loop of `feed`. -/
def loop : ℕ → Parser V → List Delta × Parser V
  | 0, p => ([], p)
  | fuel + 1, p =>
    if p.pending.isEmpty then ([], p)
    else
      let r := p.step
      if r.2.1 then
        let rest := loop fuel r.2.2
        (r.1 ++ rest.1, rest.2)
      else (r.1, r.2.2)

def run (p : Parser V) : List Delta × Parser V := loop p.pending.length p

def append (p : Parser V) (t : Text) : Parser V := { p with pending := p.pending ++ t }

/-- `feed`. -/
def feed (p : Parser V) (delta : Text) : List Delta × Parser V := (p.append delta).run

omit [Json V] [WordChars] in
/-- `finish`. -/
def finish (p : Parser V) : List Delta :=
  if p.skipsBlank || decide (p.state = .think) || decide (p.state = .response) then
    if "<|".toList.isPrefixOf p.pending then [] else (p.text p.pending).1
  else []

def feedAll : List Text → Parser V → List Delta × Parser V
  | [], p => ([], p)
  | chunk :: chunks, p =>
    let r := p.feed chunk
    let rest := feedAll chunks r.2
    (r.1 ++ rest.1, rest.2)

end Parser

/-! ## What a client sees -/

/-- The joined reasoning, the joined content and the tool calls. -/
structure Output where
  reasoning : Text
  content : Text
  calls : List ToolCall
  deriving DecidableEq

def outputOf : List Delta → Output
  | [] => ⟨[], [], []⟩
  | .reasoning t :: ds => { outputOf ds with reasoning := t ++ (outputOf ds).reasoning }
  | .content t :: ds => { outputOf ds with content := t ++ (outputOf ds).content }
  | .toolCall call :: ds => { outputOf ds with calls := call :: (outputOf ds).calls }

structure ParsedOutput where
  content : Option Text
  reasoning : Option Text
  toolCalls : List ToolCall
  deriving DecidableEq

/-- `text or None`. -/
def orNone (text : Text) : Option Text := if text.isEmpty then none else some text

section parse

variable (V : Type) [Json V] [WordChars]

/-- The chunks are fed one by one, then the parser is finished. -/
def parseChunks (reasoningOpen : Bool) (chunks : List Text) : Output :=
  let r := (Parser.new (V := V) reasoningOpen).feedAll chunks
  outputOf (r.1 ++ r.2.finish)

/-- `parse_full`: the think channel is open when it is closed before any channel is opened. -/
def parseFull (text : Text) : ParsedOutput :=
  let firstChannel := ([thinkOpen, responseOpen, toolsOpen].filterMap (fun tag => find tag text)).foldl min text.length
  let reasoningOpen := match find thinkClose text with
    | some close => decide (close < firstChannel)
    | none => false
  let output := parseChunks V reasoningOpen [text]
  ⟨orNone output.content, orNone output.reasoning, output.calls⟩

end parse

end NanoEngine.Kimi
