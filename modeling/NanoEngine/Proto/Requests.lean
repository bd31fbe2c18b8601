import NanoEngine.Lib.Codec

/-!
# NanoEngine.Proto.Requests — the two kinds of request payloads

`WireRequestIn` and `WireRequestMigrate` of `rust/src/proto/wire.rs` with `encode_binary`, `decode_binary` and the
conversions to sequences, `RequestIn::to_bytes` of `proto/metadata.rs`, and `add_request_bytes` of `scheduler/api.rs`.

* Integers have the width they have in the source; a float is its bits.
* A `HashMap` is a `Codec.Map`; the order of its entries is the one in which it is visited, and means nothing.
* `addRequestBytes` gives the sequences that are handed to `add_sequence`, and what it returns; `none` is an error.
-/

namespace NanoEngine.Requests

open Codec

abbrev I32 := BitVec 32
abbrev U64 := BitVec 64
abbrev F32 := BitVec 32
abbrev F64 := BitVec 64

structure WireSamplingParams where
  temperature : F64
  maxTokens : I32
  ignoreEos : Bool
  returnCompletionLogprobs : Bool

structure WireVisionSlot where
  encoderEngineId : Str
  slotIdx : I32
  numTokens : I32
  hiddenSize : I32
  maxTokensPerSlot : I32

/-- A new request on the wire. MessagePack arrays carry no names: the fields stand in the order of the declaration. -/
structure WireRequestIn where
  seqId : U64
  promptTokenIds : Vec I32
  samplingParams : WireSamplingParams
  affinityKey : U64
  visionSlots : Vec WireVisionSlot

/-- A sequence on its way from the prefill to the decode engine. -/
structure WireRequestMigrate where
  seqId : U64
  status : I32
  tokenIds : Vec I32
  lastToken : I32
  numTokens : I32
  numPromptTokens : I32
  numCheckpointedTokens : I32
  numCachedTokens : I32
  affinityKey : U64
  samplingParams : WireSamplingParams
  completionLogprobs : Vec F32
  activeBlockTable : Vec I32
  activeBlockTables : Map I32 (Vec I32)
  activeDispatchedTokens : Vec I32
  activeDpIdx : I32
  activeGroupId : I32
  activeStateSlot : I32
  activeCompressedBlockTables : Map I32 (Vec I32)
  activeHisparseSlot : I32
  migrateBlockTable : Vec I32
  migrateBlockTables : Map I32 (Vec I32)
  migrateEngineId : Str
  migrateNumKvcacheBlocks : I32
  migrateGroupSize : I32
  migrateDpIdx : I32
  migrateGroupId : I32
  migrateStateSlot : I32
  migrateCompressedBlockTables : Map I32 (Vec I32)
  migrateHisparseSlot : I32

section encoding

def i32 : Codec I32 := fixint 4
/-- Floats are carried by their bits, which no step of the path computes with. -/
def f32 : Codec F32 := fixint 4
def f64 : Codec F64 := fixint 8

def samplingParams : Codec WireSamplingParams :=
  (pair f64 (pair i32 (pair bool bool))).iso (fun ⟨a, b, c, d⟩ => ⟨a, b, c, d⟩)
    (fun p => (p.temperature, p.maxTokens, p.ignoreEos, p.returnCompletionLogprobs)) fun _ => rfl

def visionSlot : Codec WireVisionSlot :=
  (pair string (pair i32 (pair i32 (pair i32 i32)))).iso (fun ⟨a, b, c, d, e⟩ => ⟨a, b, c, d, e⟩)
    (fun s => (s.encoderEngineId, s.slotIdx, s.numTokens, s.hiddenSize, s.maxTokensPerSlot)) fun _ => rfl

/-- The array of the five fields of `WireRequestIn`. -/
def requestIn : Codec WireRequestIn :=
  (pair u64 (pair (list i32) (pair samplingParams (pair u64 (list visionSlot))))).iso
    (fun ⟨a, b, c, d, e⟩ => ⟨a, b, c, d, e⟩)
    (fun r => (r.seqId, r.promptTokenIds, r.samplingParams, r.affinityKey, r.visionSlots)) fun _ => rfl

/-- The array of the 29 fields of `WireRequestMigrate`, in the order of the struct. -/
def requestMigrate : Codec WireRequestMigrate :=
  (pair u64 (pair i32 (pair (list i32) (pair i32 (pair i32 (pair i32 (pair i32 (pair i32 (pair u64
    (pair samplingParams
      (pair (list f32) (pair (list i32) (pair (map i32 (list i32)) (pair (list i32) (pair i32 (pair i32
    (pair i32 (pair (map i32 (list i32)) (pair i32 (pair (list i32) (pair (map i32 (list i32)) (pair string (pair i32
    (pair i32 (pair i32 (pair i32 (pair i32 (pair (map i32 (list i32)) i32)))))))))))))))))))))))))))).iso
    (fun ⟨a₁, a₂, a₃, a₄, a₅, a₆, a₇, a₈, a₉, b₁, b₂, b₃, b₄, b₅, b₆, b₇, b₈, b₉,
        c₁, c₂, c₃, c₄, c₅, c₆, c₇, c₈, c₉, d₁, d₂⟩ =>
      ⟨a₁, a₂, a₃, a₄, a₅, a₆, a₇, a₈, a₉, b₁, b₂, b₃, b₄, b₅, b₆, b₇, b₈, b₉,
        c₁, c₂, c₃, c₄, c₅, c₆, c₇, c₈, c₉, d₁, d₂⟩)
    (fun m => (m.seqId, m.status, m.tokenIds, m.lastToken, m.numTokens, m.numPromptTokens, m.numCheckpointedTokens,
      m.numCachedTokens, m.affinityKey, m.samplingParams, m.completionLogprobs, m.activeBlockTable, m.activeBlockTables,
      m.activeDispatchedTokens, m.activeDpIdx, m.activeGroupId, m.activeStateSlot, m.activeCompressedBlockTables,
      m.activeHisparseSlot, m.migrateBlockTable, m.migrateBlockTables, m.migrateEngineId, m.migrateNumKvcacheBlocks,
      m.migrateGroupSize, m.migrateDpIdx, m.migrateGroupId, m.migrateStateSlot, m.migrateCompressedBlockTables,
      m.migrateHisparseSlot)) fun _ => rfl

/-- `encode_binary`. -/
def encodeBinary {α : Type} (c : Codec α) (value : α) : Bytes := c.encode value

/-- `decode_binary`; what follows the value is ignored. -/
def decodeBinary {α : Type} (c : Codec α) (data : Bytes) : Option α := (c.decode data).map Prod.fst

end encoding

structure SamplingParams where
  temperature : F64
  maxTokens : I32
  ignoreEos : Bool
  returnCompletionLogprobs : Bool

structure VisionSlot where
  encoderEngineId : Str
  slotIdx : I32
  numTokens : I32
  hiddenSize : I32
  maxTokensPerSlot : I32

/-- The sequence of the engine; a field without a value in `Sequence::new` has the default given here. -/
structure Sequence where
  seqId : U64
  status : I32
  tokenIds : List I32
  lastToken : I32
  numTokens : I32
  numPromptTokens : I32
  numCheckpointedTokens : I32
  numCachedTokens : I32 := 0
  prefillStartOffset : I32 := 0
  affinityKey : U64 := 0
  samplingParams : SamplingParams
  completionLogprobs : List F32 := []
  visionSlots : List VisionSlot := []
  activeBlockTable : List I32 := []
  activeBlockTables : Map I32 (Vec I32)
  hostBlockTable : List I32 := []
  hostBlockTables : Map I32 (Vec I32)
  lastScheduledStep : U64 := 0
  lastSwappedOutStep : U64 := 0
  activeDispatchedTokens : List I32 := []
  migrateBlockTable : List I32 := []
  migrateBlockTables : Map I32 (Vec I32)
  migrateEngineId : Str
  migrateNumKvcacheBlocks : I32 := 0
  migrateGroupSize : I32 := 1
  migrateDpIdx : I32 := 0
  activeDpIdx : I32 := 0
  activeGroupId : I32 := 0
  migrateGroupId : I32 := 0
  activeStateSlot : I32 := -1
  migrateStateSlot : I32 := -1
  activeCompressedBlockTables : Map I32 (Vec I32)
  migrateCompressedBlockTables : Map I32 (Vec I32)
  activeHisparseSlot : I32 := -1
  migrateHisparseSlot : I32 := -1

def noTables : Map I32 (Vec I32) := ⟨[], List.nodup_nil, Nat.two_pow_pos 64⟩

def emptyStr : Str := ⟨"", Nat.two_pow_pos 64⟩

/-- `Sequence::new`; `nextSeqId` is the counter of ids. -/
def Sequence.new (nextSeqId : U64) (tokenIds : List I32) (samplingParams : SamplingParams) : Sequence where
  seqId := nextSeqId
  status := 0
  tokenIds := tokenIds
  lastToken := tokenIds.getLast?.getD (-1)
  numTokens := BitVec.ofNat 32 tokenIds.length
  numPromptTokens := BitVec.ofNat 32 tokenIds.length
  numCheckpointedTokens := BitVec.ofNat 32 tokenIds.length
  samplingParams := samplingParams
  activeBlockTables := noTables
  hostBlockTables := noTables
  migrateBlockTables := noTables
  migrateEngineId := emptyStr
  activeCompressedBlockTables := noTables
  migrateCompressedBlockTables := noTables

def WireSamplingParams.toSamplingParams (p : WireSamplingParams) : SamplingParams where
  temperature := p.temperature
  maxTokens := p.maxTokens
  ignoreEos := p.ignoreEos
  returnCompletionLogprobs := p.returnCompletionLogprobs

/-- `request_to_sequence`: the id of the request replaces the one of the counter. -/
def requestToSequence (nextSeqId : U64) (request : WireRequestIn) : Sequence :=
  { Sequence.new nextSeqId request.promptTokenIds.1 request.samplingParams.toSamplingParams with
    seqId := request.seqId
    affinityKey := request.affinityKey
    visionSlots := request.visionSlots.1.map fun slot =>
      { encoderEngineId := slot.encoderEngineId
        slotIdx := slot.slotIdx
        numTokens := slot.numTokens
        hiddenSize := slot.hiddenSize
        maxTokensPerSlot := slot.maxTokensPerSlot } }

/-- `max(1)` of signed integers. -/
def max1 (x : I32) : I32 := if x.toInt ≤ 1 then 1 else x

/-- `migrate_request_to_sequence`: every field of the message, over a new sequence with its tokens. -/
def migrateRequestToSequence (nextSeqId : U64) (request : WireRequestMigrate) : Sequence :=
  { Sequence.new nextSeqId request.tokenIds.1 request.samplingParams.toSamplingParams with
    seqId := request.seqId
    status := request.status
    lastToken := request.lastToken
    numTokens := request.numTokens
    numPromptTokens := request.numPromptTokens
    numCheckpointedTokens := request.numCheckpointedTokens
    numCachedTokens := request.numCachedTokens
    affinityKey := request.affinityKey
    completionLogprobs := request.completionLogprobs.1
    activeBlockTable := request.activeBlockTable.1
    activeBlockTables := request.activeBlockTables
    activeDispatchedTokens := request.activeDispatchedTokens.1
    activeDpIdx := request.activeDpIdx
    activeGroupId := request.activeGroupId
    activeStateSlot := request.activeStateSlot
    activeCompressedBlockTables := request.activeCompressedBlockTables
    activeHisparseSlot := request.activeHisparseSlot
    migrateBlockTable := request.migrateBlockTable.1
    migrateBlockTables := request.migrateBlockTables
    migrateEngineId := request.migrateEngineId
    migrateNumKvcacheBlocks := request.migrateNumKvcacheBlocks
    migrateGroupSize := max1 request.migrateGroupSize
    migrateDpIdx := request.migrateDpIdx
    migrateGroupId := request.migrateGroupId
    migrateStateSlot := request.migrateStateSlot
    migrateCompressedBlockTables := request.migrateCompressedBlockTables
    migrateHisparseSlot := request.migrateHisparseSlot }

/-- The requests, each with the next id of the counter, which is not kept. -/
def requestsToSequences (nextSeqId : U64) : List WireRequestIn → List Sequence
  | [] => []
  | request :: requests => requestToSequence nextSeqId request :: requestsToSequences (nextSeqId + 1) requests

/-- What `add_request_bytes` does: the sequences added, and the pairs of id and prompt length returned. -/
structure Added where
  sequences : List Sequence
  returned : List (U64 × I32)

/-- `add_request_bytes`: a list of requests, or else a migration. -/
def addRequestBytes (nextSeqId : U64) (data : Bytes) : Option Added :=
  match decodeBinary (list requestIn) data with
  | some requests => some
      { sequences := requestsToSequences nextSeqId requests.1
        returned := requests.1.map fun request => (request.seqId, BitVec.ofNat 32 request.promptTokenIds.1.length) }
  | none => (decodeBinary requestMigrate data).map fun request =>
      { sequences := [migrateRequestToSequence nextSeqId request]
        returned := [(request.seqId, request.numPromptTokens)] }

/-- `RequestIn`, with a tuple for every vision slot. -/
structure RequestIn where
  seqId : U64
  promptTokenIds : Vec I32
  samplingParams : WireSamplingParams
  affinityKey : U64
  visionSlots : Vec (Str × I32 × I32 × I32 × I32)

/-- `WireRequestIn::from`. -/
def RequestIn.toWire (value : RequestIn) : WireRequestIn where
  seqId := value.seqId
  promptTokenIds := value.promptTokenIds
  samplingParams := value.samplingParams
  affinityKey := value.affinityKey
  visionSlots := ⟨value.visionSlots.1.map fun x => ⟨x.1, x.2.1, x.2.2.1, x.2.2.2.1, x.2.2.2.2⟩, by
    rw [List.length_map]
    exact value.visionSlots.2⟩

/-- `RequestIn::to_bytes`: a list of one. -/
def RequestIn.toBytes (value : RequestIn) : Bytes :=
  encodeBinary (list requestIn) ⟨[value.toWire], Nat.one_lt_two_pow (by decide)⟩

end NanoEngine.Requests
