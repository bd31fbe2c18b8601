import Mathlib.Data.Finset.Basic
import Mathlib.Data.Rat.Defs
import Mathlib.Logic.Function.Basic

/-!
# NanoEngine.Sequence — requests, sequences and configuration

The data of `rust/src/sequence.rs`, `sampling.rs`, `config/mod.rs` and `scheduler/types.rs`.

* Signed machine integers are `ℤ`, ids and block numbers `ℕ`, floats that are only stored `ℚ`.
* A `HashMap<K, V>` that is never iterated is a function `K → Option V`, changed with `Function.update`.
* `mode`, `status` and the routing strategy are inductive types; the bit set `CachePlan.flags` is the record of
  its named bits.
-/

namespace NanoEngine

/-- `u64::MAX`. -/
def u64Max : ℕ := 18446744073709551615

/-- The values of `Sequence.status` (`SequenceStatus` of `server/wire.py`). -/
inductive SequenceStatus
  | waiting
  | running
  | finished
  | toBeMigrated
  | prefilling
  deriving DecidableEq, Repr

/-- The values of `config.mode`. -/
inductive Mode
  | prefill
  | decode
  | hybrid
  deriving DecidableEq, Repr

/-- `RoutingStrategy`; `other` stands for the codes that `route_candidates` does not know. -/
inductive RoutingStrategy
  | roundRobin
  | leastBatch
  | leastCache
  | affinity
  | other
  deriving DecidableEq, Repr

structure SamplingParams where
  temperature : ℚ := 1
  maxTokens : ℤ := 256
  ignoreEos : Bool := false
  returnCompletionLogprobs : Bool := false
  deriving DecidableEq

structure VisionSlot where
  encoderEngineId : String
  slotIdx : ℤ
  numTokens : ℤ
  hiddenSize : ℤ
  maxTokensPerSlot : ℤ
  deriving DecidableEq

/-- One request and its scheduling state. -/
structure Sequence where
  seqId : ℕ
  status : SequenceStatus := .waiting
  tokenIds : List ℤ
  lastToken : ℤ
  numTokens : ℤ
  numPromptTokens : ℤ
  numCheckpointedTokens : ℤ
  numCachedTokens : ℤ := 0
  prefillStartOffset : ℤ := 0
  affinityKey : ℕ := 0
  samplingParams : SamplingParams := {}
  completionLogprobs : List ℚ := []
  visionSlots : List VisionSlot := []
  activeBlockTable : List ℕ := []
  activeBlockTables : ℤ → Option (List ℕ) := fun _ => none
  hostBlockTable : List ℕ := []
  hostBlockTables : ℤ → Option (List ℕ) := fun _ => none
  lastScheduledStep : ℕ := 0
  lastSwappedOutStep : ℕ := 0
  activeDispatchedTokens : List ℤ := []
  migrateBlockTable : List ℕ := []
  migrateBlockTables : ℤ → Option (List ℕ) := fun _ => none
  migrateEngineId : String := ""
  migrateNumKvcacheBlocks : ℤ := 0
  migrateGroupSize : ℤ := 1
  migrateDpIdx : ℤ := 0
  activeDpIdx : ℤ := 0
  activeGroupId : ℤ := 0
  migrateGroupId : ℤ := 0
  activeStateSlot : ℤ := -1
  migrateStateSlot : ℤ := -1
  activeCompressedBlockTables : ℤ → Option (List ℕ) := fun _ => none
  migrateCompressedBlockTables : ℤ → Option (List ℕ) := fun _ => none
  activeHisparseSlot : ℤ := -1
  migrateHisparseSlot : ℤ := -1

/-- `Sequence::new`, with the id the caller stores afterwards. -/
def Sequence.new (seqId : ℕ) (tokenIds : List ℤ) (samplingParams : SamplingParams) : Sequence where
  seqId := seqId
  tokenIds := tokenIds
  lastToken := tokenIds.getLast?.getD (-1)
  numTokens := tokenIds.length
  numPromptTokens := tokenIds.length
  numCheckpointedTokens := tokenIds.length
  samplingParams := samplingParams

/-- A generated token is pushed, with its log-probability when the runner returned one. -/
def Sequence.pushToken (seq : Sequence) (token : ℤ) (logprob : Option ℚ) : Sequence :=
  { seq with
    tokenIds := seq.tokenIds ++ [token]
    lastToken := token
    completionLogprobs := seq.completionLogprobs ++ logprob.toList
    numTokens := (seq.tokenIds ++ [token]).length }

/-- What a preemption writes: all tokens so far become the target of the next admission. -/
def Sequence.requeue (seq : Sequence) : Sequence :=
  { seq with
    status := .waiting
    numTokens := seq.tokenIds.length
    numCheckpointedTokens := seq.tokenIds.length
    prefillStartOffset := 0 }

/-- What a continuation writes: the next chunk starts where the last one ended. -/
def Sequence.continueWith (seq : Sequence) (newTokens : ℤ) (dispatch : List ℤ) : Sequence :=
  { seq with
    prefillStartOffset := seq.numTokens
    numTokens := seq.numTokens + newTokens
    activeDispatchedTokens := dispatch }

/-- `WireRequestIn`: a new request. -/
structure WireRequestIn where
  seqId : ℕ
  promptTokenIds : List ℤ
  samplingParams : SamplingParams := {}
  affinityKey : ℕ := 0
  visionSlots : List VisionSlot := []

/-- `request_to_sequence`. -/
def requestToSequence (request : WireRequestIn) : Sequence :=
  { Sequence.new request.seqId request.promptTokenIds request.samplingParams with
    affinityKey := request.affinityKey
    visionSlots := request.visionSlots }

/-- `WireRequestMigrate`: a sequence handed over by a prefill engine. -/
structure WireRequestMigrate where
  seqId : ℕ
  status : SequenceStatus
  tokenIds : List ℤ
  lastToken : ℤ
  numTokens : ℤ
  numPromptTokens : ℤ
  numCheckpointedTokens : ℤ
  numCachedTokens : ℤ
  affinityKey : ℕ
  samplingParams : SamplingParams
  completionLogprobs : List ℚ
  activeBlockTable : List ℕ
  activeBlockTables : ℤ → Option (List ℕ)
  activeDispatchedTokens : List ℤ
  activeDpIdx : ℤ
  activeGroupId : ℤ
  activeStateSlot : ℤ
  activeCompressedBlockTables : ℤ → Option (List ℕ)
  activeHisparseSlot : ℤ
  migrateBlockTable : List ℕ
  migrateBlockTables : ℤ → Option (List ℕ)
  migrateEngineId : String
  migrateNumKvcacheBlocks : ℤ
  migrateGroupSize : ℤ
  migrateDpIdx : ℤ
  migrateGroupId : ℤ
  migrateStateSlot : ℤ
  migrateCompressedBlockTables : ℤ → Option (List ℕ)
  migrateHisparseSlot : ℤ

/-- `sequence_to_migration_request_ref`. -/
def sequenceToMigrationRequest (seq : Sequence) : WireRequestMigrate where
  seqId := seq.seqId
  status := seq.status
  tokenIds := seq.tokenIds
  lastToken := seq.lastToken
  numTokens := seq.numTokens
  numPromptTokens := seq.numPromptTokens
  numCheckpointedTokens := seq.numCheckpointedTokens
  numCachedTokens := seq.numCachedTokens
  affinityKey := seq.affinityKey
  samplingParams := seq.samplingParams
  completionLogprobs := seq.completionLogprobs
  activeBlockTable := seq.activeBlockTable
  activeBlockTables := seq.activeBlockTables
  activeDispatchedTokens := seq.activeDispatchedTokens
  activeDpIdx := seq.activeDpIdx
  activeGroupId := seq.activeGroupId
  activeStateSlot := seq.activeStateSlot
  activeCompressedBlockTables := seq.activeCompressedBlockTables
  activeHisparseSlot := seq.activeHisparseSlot
  migrateBlockTable := seq.migrateBlockTable
  migrateBlockTables := seq.migrateBlockTables
  migrateEngineId := seq.migrateEngineId
  migrateNumKvcacheBlocks := seq.migrateNumKvcacheBlocks
  migrateGroupSize := seq.migrateGroupSize
  migrateDpIdx := seq.migrateDpIdx
  migrateGroupId := seq.migrateGroupId
  migrateStateSlot := seq.migrateStateSlot
  migrateCompressedBlockTables := seq.migrateCompressedBlockTables
  migrateHisparseSlot := seq.migrateHisparseSlot

/-- `migrate_request_to_sequence`. -/
def migrateRequestToSequence (request : WireRequestMigrate) : Sequence :=
  { Sequence.new request.seqId request.tokenIds request.samplingParams with
    status := request.status
    lastToken := request.lastToken
    numTokens := request.numTokens
    numPromptTokens := request.numPromptTokens
    numCheckpointedTokens := request.numCheckpointedTokens
    numCachedTokens := request.numCachedTokens
    affinityKey := request.affinityKey
    completionLogprobs := request.completionLogprobs
    activeBlockTable := request.activeBlockTable
    activeBlockTables := request.activeBlockTables
    activeDispatchedTokens := request.activeDispatchedTokens
    activeDpIdx := request.activeDpIdx
    activeGroupId := request.activeGroupId
    activeStateSlot := request.activeStateSlot
    activeCompressedBlockTables := request.activeCompressedBlockTables
    activeHisparseSlot := request.activeHisparseSlot
    migrateBlockTable := request.migrateBlockTable
    migrateBlockTables := request.migrateBlockTables
    migrateEngineId := request.migrateEngineId
    migrateNumKvcacheBlocks := request.migrateNumKvcacheBlocks
    migrateGroupSize := max request.migrateGroupSize 1
    migrateDpIdx := request.migrateDpIdx
    migrateGroupId := request.migrateGroupId
    migrateStateSlot := request.migrateStateSlot
    migrateCompressedBlockTables := request.migrateCompressedBlockTables
    migrateHisparseSlot := request.migrateHisparseSlot }

/-! ## Configuration -/

/-- The fields of `HcaCacheSpec` and `CsaCacheSpec` that the scheduler reads (`-1` when unset). -/
structure CompressedSpec where
  compressionRatio : ℤ := -1
  numPages : ℤ := -1
  pageSize : ℤ := -1
  maxBlocksPerSeq : ℤ := -1

/-- `CachePlan`: the flag bits and the specs that the scheduler reads. -/
structure CachePlan where
  gqa : Bool := false
  mla : Bool := false
  gdn : Bool := false
  hcaFlag : Bool := false
  csaFlag : Bool := false
  indexer : Bool := false
  hisparse : Bool := false
  gdnStateSlots : ℤ := -1
  hca : CompressedSpec := {}
  csa : CompressedSpec := {}
  hisparseMaxNumSeqs : ℤ := -1
  hisparseSwapInBlockSize : ℤ := -1

/-- `flags & ((1 << 2) | (1 << 3) | (1 << 4)) != 0`: the plans with a per-sequence state slot. -/
def CachePlan.hasState (p : CachePlan) : Bool := p.gdn || p.hcaFlag || p.csaFlag

/-- `SchedulerConfig`. -/
structure SchedulerConfig where
  engineId : String := ""
  numSpeculativeTokens : ℤ := 0
  maxNumSeqs : ℤ := 0
  maxNumBatchedTokens : ℤ := 0
  maxModelLen : ℤ := 0
  eosIds : List ℤ := []
  attentionDp : ℤ := 1
  groupSize : ℤ := 1
  numKvcacheBlocks : ℤ := 0
  numHostKvcacheBlocks : ℤ := 0
  kvcacheBlockSize : ℤ := 0
  mode : Mode := .hybrid
  routingStrategy : RoutingStrategy := .roundRobin
  enablePrefixCache : Bool := true
  cachePlan : CachePlan := {}

/-- The scheduler's `dp()`. -/
def SchedulerConfig.dp (c : SchedulerConfig) : ℕ := (max c.attentionDp 1).toNat

/-- The scheduler's `group()`. -/
def SchedulerConfig.group (c : SchedulerConfig) : ℕ := (max c.groupSize 1).toNat

/-- `kvcache_block_size.max(1)`. -/
def SchedulerConfig.blockSize (c : SchedulerConfig) : ℕ := (max c.kvcacheBlockSize 1).toNat

/-- `num_speculative_tokens > 1 && mode != "hybrid"`: recurrent MTP hand-off needs a state slot. -/
def SchedulerConfig.needsMtpHandoff (c : SchedulerConfig) : Bool :=
  decide (c.numSpeculativeTokens > 1) && decide (c.mode ≠ .hybrid)

theorem SchedulerConfig.one_le_dp (c : SchedulerConfig) : 1 ≤ c.dp := by
  unfold SchedulerConfig.dp; omega

theorem SchedulerConfig.one_le_group (c : SchedulerConfig) : 1 ≤ c.group := by
  unfold SchedulerConfig.group; omega

theorem SchedulerConfig.one_le_blockSize (c : SchedulerConfig) : 1 ≤ c.blockSize := by
  unfold SchedulerConfig.blockSize; omega

end NanoEngine
