import Mathlib.Data.List.Range
import Mathlib.Data.List.Nodup

/-!
# NanoEngine.Disagg.Stages — the cache layers of pipeline stages

Three places say which layers of a pipeline stage have a cache slot.

* The publisher: `_pp_layer_ranges`, `_mtp_num_kv_layers` and `_pp_cache_layer_indices` of
  `dlengine/engine/llm_component.py`, over `dlengine/runtime/models/pp_utils.py`.
* The allocator of a stage: `preallocate_kvcache` of `dlengine/runtime/runner/model_runner.py`.  It only counts; the
  model lists what it counts.
* The consumer: the checks of `migrate_from_bytes` in `dlengine/runtime/disagg/p2p/cache_transfer.py`, and its reads.

A function that raises returns `none`.
-/

namespace NanoEngine.Disagg

inductive LayerType
  | linearAttention
  | fullAttention
  | other (name : String)
  deriving DecidableEq

/-- `architecture_loaders`. -/
inductive Architecture
  | qwen3 | qwen3Moe | qwen35 | qwen35Moe | deepseekV2 | deepseekV3 | deepseekV32 | deepseekV4 | glmMoeDsa
  | gemma4 | gemma4Conditional | kimiK3 | glm5Next
  deriving DecidableEq

namespace Architecture

def isGemma4 (a : Architecture) : Bool := decide (a = gemma4) || decide (a = gemma4Conditional)

/-- The architectures whose predictor layers the publisher counts. -/
def countsPredictors (a : Architecture) : Bool :=
  decide (a = deepseekV3) || decide (a = deepseekV32) || decide (a = glmMoeDsa)

end Architecture

/-- The fields of `hf_config` that are read.  `transformers` checks the length of `layer_types`, and a Gemma4 layer is
built from its entry. -/
structure ModelConfig where
  architecture : Architecture
  numHiddenLayers : ℕ
  layerTypes : Option (List LayerType)
  numKvSharedLayers : ℕ
  numNextnPredictLayers : ℕ
  mtpNumHiddenLayers : ℕ
  compressRatios : List ℕ
  kvLoraRank : ℕ
  qkRopeHeadDim : ℕ
  /-- A nested sub-config declares a linear-attention layer. -/
  nestedLinear : Bool
  length_layerTypes : ∀ types ∈ layerTypes, types.length = numHiddenLayers
  gemma4_layerTypes : architecture.isGemma4 = true → layerTypes.isSome = true
  shared_le : numKvSharedLayers ≤ numHiddenLayers

structure EngineConfig where
  model : ModelConfig
  pp : ℕ
  numSpeculativeTokens : ℕ
  enableHisparse : Bool

/-! ## The split into stages -/

/-- The loop of `pp_layer_partition` from a stage on. -/
def splitFrom (base remainder : ℕ) : ℕ → ℕ → ℕ → List (ℕ × ℕ)
  | _, _, 0 => []
  | stage, start, n + 1 =>
    let count := base + if stage < remainder then 1 else 0
    (start, start + count) :: splitFrom base remainder (stage + 1) (start + count) n

/-- `pp_layer_partition`. -/
def ppLayerPartition (numLayers ppSize : ℕ) (finalStageStart : Option ℕ) : Option (List (ℕ × ℕ)) :=
  let ppSize := max 1 ppSize
  if ppSize = 1 then some [(0, numLayers)]
  else
    match finalStageStart with
    | some start =>
      if ¬ (0 < start ∧ start < numLayers) then none
      else if start < ppSize - 1 then none
      else
        let splitSize := ppSize - 1
        some (splitFrom (start / splitSize) (start % splitSize) 0 0 splitSize ++ [(start, numLayers)])
    | none => some (splitFrom (numLayers / ppSize) (numLayers % ppSize) 0 0 ppSize)

/-- `pp_stage_of_layer`. -/
def ppStageOfLayer (layer : ℕ) (ranges : List (ℕ × ℕ)) : Option ℕ :=
  ranges.findIdx? (fun r => decide (r.1 ≤ layer) && decide (layer < r.2))

/-- `partition_layer_indices`. -/
def partitionLayerIndices (layers : List ℕ) (ranges : List (ℕ × ℕ)) : Option (List (List ℕ)) :=
  if layers.all (fun layer => (ppStageOfLayer layer ranges).isSome) then
    some ((List.range ranges.length).map (fun stage =>
      layers.filter (fun layer => ppStageOfLayer layer ranges = some stage)))
  else none

/-- `layers_by_stage[-1].extend`. -/
def extendLast (stages : List (List ℕ)) (extra : List ℕ) : List (List ℕ) :=
  stages.dropLast ++ [stages.getLastD [] ++ extra]

namespace ModelConfig

variable (m : ModelConfig)

def typeOf (layer : ℕ) : Option LayerType := (m.layerTypes.getD [])[layer]?

def hasLinear : Bool := decide (LayerType.linearAttention ∈ m.layerTypes.getD [])

/-- The first layer that shares the cache of an earlier one. -/
def firstShared : ℕ := m.numHiddenLayers - m.numKvSharedLayers

/-- `get_gemma4_shared_kv_source_start`: `none` when a shared layer has no source. -/
def gemma4SharedKvSourceStart : Option (Option ℕ) :=
  if m.numKvSharedLayers = 0 then some none
  else
    let types := m.layerTypes.getD []
    let source (t : LayerType) := ((List.range m.firstShared).filter (fun i => types[i]? = some t)).getLast?
    let sources := (types.drop m.firstShared).map source
    if sources.all Option.isSome then some (sources.filterMap id).min? else none

/-- `cache_layer_indices`. -/
def cacheLayerIndices (onlyFullAttention : Bool) : List ℕ :=
  if m.architecture.isGemma4 then
    if onlyFullAttention then (List.range m.firstShared).filter (fun i => m.typeOf i = some .fullAttention)
    else List.range m.firstShared
  else if m.hasLinear then (List.range m.numHiddenLayers).filter (fun i => m.typeOf i = some .fullAttention)
  else List.range m.numHiddenLayers

end ModelConfig

/-! ## The cache plan -/

/-- The flags of a cache plan that are asked for. -/
structure CachePlan where
  gqa : Bool := false
  mla : Bool := false
  hisparse : Bool := false

namespace EngineConfig

variable (c : EngineConfig)

/-- `_build_cache_plan_with_reason`. -/
def cachePlan : CachePlan :=
  if 4 ∈ c.model.compressRatios ∧ 128 ∈ c.model.compressRatios then {}
  else if c.model.architecture = .kimiK3 ∨ c.model.architecture = .glm5Next then { mla := true }
  else if c.model.hasLinear || c.model.nestedLinear then { gqa := true }
  else if c.model.architecture.isGemma4 && c.enableHisparse then { gqa := true, hisparse := true }
  else if c.model.kvLoraRank ≠ 0 ∨ c.model.qkRopeHeadDim ≠ 0 then { mla := true, hisparse := c.enableHisparse }
  else { gqa := true }

/-! ## The publisher -/

/-- `_pp_layer_ranges`. -/
def ppLayerRanges : Option (List (ℕ × ℕ)) :=
  if 1 < c.pp ∧ c.model.architecture.isGemma4 then do
    let start ← c.model.gemma4SharedKvSourceStart
    ppLayerPartition c.model.numHiddenLayers c.pp start
  else ppLayerPartition c.model.numHiddenLayers c.pp none

/-- `_mtp_num_kv_layers`. -/
def mtpNumKvLayers : ℕ :=
  if c.numSpeculativeTokens = 0 then 0
  else if c.model.architecture.countsPredictors then
    max 1 (max c.model.numNextnPredictLayers c.model.mtpNumHiddenLayers)
  else 0

/-- `_pp_cache_layer_indices`: the predictor slots are behind all target layers, on the last stage. -/
def ppCacheLayerIndices : Option (List (List ℕ)) := do
  let ranges ← c.ppLayerRanges
  let targets := c.model.cacheLayerIndices c.enableHisparse
  let byStage ← partitionLayerIndices targets ranges
  some (extendLast byStage (List.range' targets.length c.mtpNumKvLayers))

/-! ## The allocator -/

/-- The layer ranges of the stages, as each stage computes its own. -/
def stageRanges : Option (List (ℕ × ℕ)) :=
  if c.model.architecture.isGemma4 then do
    let start ← c.model.gemma4SharedKvSourceStart
    ppLayerPartition c.model.numHiddenLayers c.pp start
  else ppLayerPartition c.model.numHiddenLayers c.pp none

/-- The target layers `preallocate_kvcache` counts on a stage. -/
def stageTargets (range : ℕ × ℕ) : List ℕ :=
  let layers := List.range' range.1 (range.2 - range.1)
  if c.model.architecture.isGemma4 then
    if c.cachePlan.hisparse && c.cachePlan.gqa then
      layers.filter (fun i => decide (i < c.model.firstShared) && decide (c.model.typeOf i = some .fullAttention))
    else layers.filter (fun i => decide (i < c.model.firstShared))
  else if layers.any (fun i => c.model.typeOf i = some .linearAttention) then
    layers.filter (fun i => c.model.typeOf i ≠ some .linearAttention)
  else layers

/-- `num_mtp_layers` of the predictor model. -/
def numMtpLayers : ℕ :=
  if c.model.architecture = .qwen35Moe then c.model.mtpNumHiddenLayers else c.model.numNextnPredictLayers

/-- The predictor layers of a stage: only the last one has the predictor model. -/
def stagePredictors (stage : ℕ) : ℕ :=
  if 0 < c.numSpeculativeTokens ∧ stage + 1 = c.pp ∧ c.cachePlan.mla = true then max 1 c.numMtpLayers else 0

end EngineConfig

/-- A layer with a cache slot. -/
inductive CacheLayer
  | target (layer : ℕ)
  | predictor (index : ℕ)
  deriving DecidableEq

/-- The cache of a stage, slot by slot. -/
def EngineConfig.stageCache (c : EngineConfig) (ranges : List (ℕ × ℕ)) (stage : ℕ) : List CacheLayer :=
  (c.stageTargets (ranges.getD stage (0, 0))).map .target ++ (List.range (c.stagePredictors stage)).map .predictor

/-- A decode engine of the same model, which has one stage. -/
def EngineConfig.decode (c : EngineConfig) : EngineConfig := { c with pp := 1 }

/-- The cache of the decode engine. -/
def EngineConfig.decodeCache (c : EngineConfig) : List CacheLayer :=
  c.decode.stageCache [(0, c.model.numHiddenLayers)] 0

/-! ## The consumer -/

/-- What the decode engine learns of a prefill engine. -/
structure PpMetadata where
  pp : ℕ
  numHiddenLayers : ℕ
  layerRanges : List (ℕ × ℕ)
  cacheLayers : List (List ℕ)
  mtpNumKvLayers : ℕ

/-- The part of the engine info of a prefill engine. -/
def EngineConfig.metadata (c : EngineConfig) : Option PpMetadata := do
  let ranges ← c.ppLayerRanges
  let layers ← c.ppCacheLayerIndices
  some { pp := c.pp, numHiddenLayers := c.model.numHiddenLayers, layerRanges := ranges, cacheLayers := layers,
         mtpNumKvLayers := c.mtpNumKvLayers }

namespace PpMetadata

variable (p : PpMetadata) (localLayers : ℕ)

/-- The check of the layer ranges. -/
def rangesValid (numLayers : ℕ) : Bool :=
  decide (p.layerRanges.length = p.pp) && !p.layerRanges.isEmpty && decide ((p.layerRanges.headD (0, 0)).1 = 0) &&
    decide ((p.layerRanges.getLastD (0, 0)).2 = numLayers) &&
    (p.layerRanges.zip p.layerRanges.tail).all (fun e => decide (e.1.1 < e.1.2) && decide (e.1.2 = e.2.1)) &&
    decide ((p.layerRanges.getLastD (0, 0)).1 < (p.layerRanges.getLastD (0, 0)).2)

def predictorSlots : List ℕ := List.range' p.numHiddenLayers p.mtpNumKvLayers

/-- The check of the cache layers of one stage. -/
def stageValid (stage : ℕ) (range : ℕ × ℕ) (layers : List ℕ) : Bool :=
  let targets := layers.filter (· < p.numHiddenLayers)
  let slots := layers.filter (p.numHiddenLayers ≤ ·)
  targets.all (fun layer => decide (range.1 ≤ layer) && decide (layer < range.2)) &&
    (slots.isEmpty || decide (stage + 1 = p.pp) && decide (slots = p.predictorSlots))

/-- The checks of `migrate_from_bytes`. -/
def valid : Bool :=
  let numLayers := if p.numHiddenLayers = 0 then localLayers else p.numHiddenLayers
  let flat := p.cacheLayers.flatten
  p.rangesValid numLayers && (decide (p.pp ≤ 1) ||
    decide (0 < p.numHiddenLayers) && decide (p.cacheLayers.length = p.pp) && decide (flat.length = localLayers) &&
      decide flat.Nodup && decide (flat.Pairwise (· ≤ ·)) &&
      (decide (p.mtpNumKvLayers = 0) || decide (flat.drop (flat.length - p.mtpNumKvLayers) = p.predictorSlots)) &&
      (p.cacheLayers.zipIdx.all (fun e => p.stageValid e.2 (p.layerRanges.getD e.2 (0, 0)) e.1)))

/-- The cache layers the reads go by. -/
def readLayers : List (List ℕ) := if 1 < p.pp then p.cacheLayers else [List.range localLayers]

end PpMetadata

/-- The entries of `remote_cache_locations`: a layer, its stage and its slot there. -/
def cacheLocations {α : Type} (stages : List (List α)) : List (α × ℕ × ℕ) :=
  stages.zipIdx.flatMap (fun e => e.1.zipIdx.map (fun x => (x.1, e.2, x.2)))

/-- A cell of the mesh inside a stage. -/
structure MeshCell where
  dpIdx : ℕ
  spIdx : ℕ
  tpIdx : ℕ
  dpSize : ℕ
  spSize : ℕ
  tpSize : ℕ
  dp_lt : dpIdx < dpSize
  sp_lt : spIdx < spSize
  tp_lt : tpIdx < tpSize

namespace MeshCell

variable (cell : MeshCell)

def innerWorldSize : ℕ := cell.dpSize * cell.spSize * cell.tpSize

/-- `pp_global_rank`; the cell is inside the mesh, so it does not raise. -/
def ppGlobalRank (ppIdx : ℕ) : ℕ :=
  ppIdx * cell.innerWorldSize + ((cell.dpIdx * cell.spSize + cell.spIdx) * cell.tpSize + cell.tpIdx)

end MeshCell

/-- A read of one block in one plane: the local layer, the rank asked, the layer there and how many layers that rank
has. -/
structure CacheRead where
  localLayer : ℕ
  rank : ℕ
  remoteLayer : ℕ
  remoteLayers : ℕ
  deriving DecidableEq

/-- The reads of one block in one plane.  A later entry of `remote_cache_locations` replaces an earlier one; `none` is a
missing key. -/
def cacheReads (cell : MeshCell) (stages : List (List ℕ)) : List (Option CacheRead) :=
  stages.flatten.zipIdx.map (fun x =>
    ((cacheLocations stages).reverse.find? (fun e => decide (e.1 = x.1))).map (fun e =>
      { localLayer := x.2
        rank := e.2.1 * cell.innerWorldSize + cell.ppGlobalRank 0
        remoteLayer := e.2.2
        remoteLayers := (stages.getD e.2.1 []).length }))

end NanoEngine.Disagg
