import NanoEngine.Lib.Strided
import NanoEngine.Worker.HostSwap

/-!
# NanoEngine.Disagg.CacheLayout — where the blocks of a cache lie

`runtime/disagg/p2p/cache_layout.py`, over the tensors that `runtime/context/cache` allocates and the numbers that an
engine publishes in `engine/llm_component.py`.

* `CacheSetup`: what the allocators read.  `kvCache`, `gdnConvStates` and the others are the tensors they allocate.
* `CacheTensorLayout`: the snapshot, from the context of the engine or from the numbers of a peer.
* `CacheSetup.Addressed`: the byte ranges of all caches lie in their tensors and do not overlap.
* `CacheSetup.Agrees`: the offsets computed for a peer are its own.
-/

namespace NanoEngine.Disagg

open Strided

/-- `DSV4_BYTES_PER_TOKEN`. -/
def dsv4BytesPerToken : ℕ := 584

/-- `FP8_QUANT_TILE_SIZE`. -/
def fp8QuantTileSize : ℕ := 128

/-- `INDEXER_QUANT_BLOCK_SIZE`. -/
def indexerQuantBlockSize : ℕ := 128

/-- `DSV4_COMPRESSED_PAGE_SIZE`. -/
def dsv4CompressedPageSize : ℕ := 2

/-- The dimensions of the linear attention layers, as the model has them, and the size of a recurrent entry. -/
structure GdnDims where
  linearNumKeyHeads : ℕ
  linearNumValueHeads : ℕ
  linearKeyHeadDim : ℕ
  linearValueHeadDim : ℕ
  linearConvKernelDim : ℕ
  recurrentItemsize : ℕ

/-- A tensor, as it is allocated. -/
structure TensorSpec where
  shape : List ℕ
  itemsize : ℕ

def TensorSpec.numBytes (t : TensorSpec) : ℕ := t.shape.prod * t.itemsize

/-- What the allocators of one worker read: the cache context as `set_cache_context` builds it, the model and the limits
of the engine.  The layers are those of the worker's stage. -/
structure CacheSetup where
  mode : CacheMode
  numKvHeads : ℕ
  headDim : ℕ
  blockSize : ℕ
  attentionTp : ℕ
  dtypeItemsize : ℕ
  kvLoraRank : ℕ
  qkRopeHeadDim : ℕ
  isFp8Kvcache : Bool
  rawFp8MlaLayout : Bool
  hasIndexer : Bool
  indexHeadDim : ℕ
  gdn : Option GdnDims
  numHiddenLayers : ℕ
  numGdnLayers : ℕ
  compressRatios : List ℕ
  modelCompressRatios : List ℕ
  numLocalKvcacheBlocks : ℕ
  maxNumSeqs : ℕ
  gdnStateCacheSlots : ℕ
  numSpeculativeTokens : ℕ
  maxModelLen : ℕ
  poolPagesRatio4 : ℕ
  poolPagesRatio128 : ℕ
  stage : compressRatios ⊆ modelCompressRatios

namespace CacheSetup

variable (c : CacheSetup)

/-! ## The tensors -/

/-- `context.head_dim` after `configure`. -/
def configuredHeadDim : ℕ :=
  match c.mode with
  | .gqa => c.headDim
  | .mla => c.kvLoraRank + c.qkRopeHeadDim
  | .dsv4 => 512

/-- `num_local_kv_heads`. -/
def numLocalKvHeads : ℕ :=
  match c.mode with
  | .gqa => c.numKvHeads / c.attentionTp
  | .mla => 1
  | .dsv4 => 1 / c.attentionTp

/-- `_fp8_head_dim`, which `get_mla_block_bytes` sets. -/
def fp8HeadDim : ℕ :=
  match c.mode with
  | .mla =>
    if c.isFp8Kvcache then
      if c.rawFp8MlaLayout then c.configuredHeadDim
      else c.kvLoraRank + c.kvLoraRank / fp8QuantTileSize * 4 + c.qkRopeHeadDim * 2
    else 0
  | _ => 0

/-- `allocate_gqa_kvcache`, `allocate_mla_kvcache`, `allocate_dsv4_kvcache`: the storage behind `kv_cache`, with the
row that pads a packed block and the dummy page. -/
def kvCache : TensorSpec :=
  let layers := c.numHiddenLayers
  let blocks := c.numLocalKvcacheBlocks
  match c.mode with
  | .gqa => ⟨[2, layers, blocks, c.blockSize, c.numLocalKvHeads, c.configuredHeadDim], c.dtypeItemsize⟩
  | .mla =>
    if c.isFp8Kvcache then
      if c.rawFp8MlaLayout then ⟨[1, layers, blocks, c.blockSize, 1, c.configuredHeadDim], 1⟩
      else ⟨[1, layers, blocks, c.blockSize + 1, 1, c.fp8HeadDim], 1⟩
    else ⟨[1, layers, blocks, c.blockSize, c.numLocalKvHeads, c.configuredHeadDim], c.dtypeItemsize⟩
  | .dsv4 => ⟨[layers, blocks + 1, c.blockSize, 1, dsv4BytesPerToken], 1⟩

/-- `num_slots` of `allocate_gdn_states`: active, parked and backup slots, and the dummy slot. -/
def gdnSlots : ℕ :=
  let maxBs := c.maxNumSeqs + c.gdnStateCacheSlots
  if 0 < c.numSpeculativeTokens then maxBs * 2 + 1 else maxBs + 1

/-- `num_v_heads`. -/
def gdnValueHeads (dims : GdnDims) : ℕ := dims.linearNumValueHeads / c.attentionTp

/-- `conv_dim`. -/
def gdnConvDim (dims : GdnDims) : ℕ :=
  dims.linearNumKeyHeads / c.attentionTp * dims.linearKeyHeadDim * 2 + c.gdnValueHeads dims * dims.linearValueHeadDim

/-- The dimensions for which `allocate_gdn_states` allocates. -/
def gdnAllocated : Option GdnDims := c.gdn.filter fun dims => decide (c.gdnValueHeads dims ≠ 0)

def gdnConvStates : Option TensorSpec := c.gdnAllocated.map fun dims =>
  ⟨[c.numGdnLayers, c.gdnSlots, c.gdnConvDim dims, dims.linearConvKernelDim], 2⟩

def gdnRecurrentStates : Option TensorSpec := c.gdnAllocated.map fun dims =>
  ⟨[c.numGdnLayers, c.gdnSlots, c.gdnValueHeads dims, dims.linearValueHeadDim, dims.linearKeyHeadDim],
    dims.recurrentItemsize⟩

/-- `bytes_per_token` of the indexer. -/
def indexerBytesPerToken : ℕ := c.indexHeadDim + c.indexHeadDim / indexerQuantBlockSize * 4

/-- `allocate_indexer_cache`. -/
def indexerCache : Option TensorSpec :=
  if c.hasIndexer && decide (0 < c.indexHeadDim) then
    some ⟨[c.numHiddenLayers, c.numLocalKvcacheBlocks, c.blockSize * c.indexerBytesPerToken], 1⟩
  else none

/-- The layers of a ratio: `layers_for_ratio`. -/
def layersForRatio (ratio : ℕ) : ℕ := (c.compressRatios.filter (· == ratio)).length

/-- `pool_pages_per_ratio.get(ratio, 0)`. -/
def poolPagesOverride (ratio : ℕ) : ℕ :=
  if ratio = 4 then c.poolPagesRatio4 else if ratio = 128 then c.poolPagesRatio128 else 0

/-- `num_pages` of a ratio. -/
def compressedNumPages (ratio : ℕ) : ℕ :=
  let maxCompressed := (c.maxModelLen / ratio + 63) / 64 * 64
  let maxBlocksPerSeq := (maxCompressed + dsv4CompressedPageSize - 1) / dsv4CompressedPageSize
  if 0 < c.poolPagesOverride ratio then c.poolPagesOverride ratio else c.maxNumSeqs * maxBlocksPerSeq

/-- The ratio is in `dsv4_compressed_pool_config`. -/
def hasRatio (ratio : ℕ) : Bool := decide (c.mode = .dsv4) && decide (0 < ratio) &&
    decide (ratio ∈ c.compressRatios)

/-- `allocate_dsv4_compressed_caches`: `dsv4_compressed_caches_flat[ratio]`. -/
def compressedCache (ratio : ℕ) : Option TensorSpec :=
  if c.hasRatio ratio then
    some ⟨[c.layersForRatio ratio, c.compressedNumPages ratio + 1, dsv4CompressedPageSize, 1, dsv4BytesPerToken], 1⟩
  else none

end CacheSetup

/-- `kind` of a compressor state. -/
inductive CompressorKind where
  | kv
  | score
  | counts
  deriving DecidableEq

namespace CacheSetup

variable (c : CacheSetup)

/-- `coeff`. -/
def compressorCoeff (ratio : ℕ) : ℕ := if ratio = 4 then 2 else 1

/-- `allocate_dsv4_compressor_state` with the head dimension `512` of `_wire_dsv4_caches`. -/
def compressorState (ratio : ℕ) (kind : CompressorKind) : Option TensorSpec :=
  if c.hasRatio ratio then
    match kind with
    | .counts => some ⟨[c.layersForRatio ratio, c.maxNumSeqs + 1], 4⟩
    | _ =>
      some ⟨[c.layersForRatio ratio, c.maxNumSeqs + 1, compressorCoeff ratio * ratio,
        compressorCoeff ratio * 512], 4⟩
  else none

end CacheSetup

/-! ## The layout -/

/-- `CacheTensorLayout`. -/
structure CacheTensorLayout where
  numBlocks : ℕ
  blockSize : ℕ
  numLocalKvHeads : ℕ
  headDim : ℕ
  dtypeItemsize : ℕ
  numHiddenLayers : ℕ
  mode : CacheMode
  isFp8Kvcache : Bool
  fp8HeadDim : ℕ
  rawFp8MlaLayout : Bool
  gdnNumSlots : ℕ
  gdnConvStride0 : ℕ
  gdnConvStride1 : ℕ
  gdnConvElementSize : ℕ
  gdnRecurrentStride0 : ℕ
  gdnRecurrentStride1 : ℕ
  gdnRecurrentElementSize : ℕ
  indexerPageBytes : ℕ
  compressedPoolPages : ℕ → Option ℕ
  compressedPageBytesByRatio : ℕ → Option ℕ
  compressorSlotsPlusDummyByRatio : ℕ → Option ℕ

/-- `t.stride(axis)` of a tensor that may be missing. -/
def strideOf (t : Option TensorSpec) (axis : ℕ) : ℕ := (t.map fun t => (strides t.shape).getD axis 0).getD 0

def elementSizeOf (t : Option TensorSpec) : ℕ := (t.map TensorSpec.itemsize).getD 0

/-- `from_cache_context`. -/
def CacheSetup.layout (c : CacheSetup) : CacheTensorLayout where
  numBlocks := c.numLocalKvcacheBlocks
  blockSize := c.blockSize
  numLocalKvHeads := c.numLocalKvHeads
  headDim := c.configuredHeadDim
  dtypeItemsize := c.dtypeItemsize
  numHiddenLayers := c.numHiddenLayers
  mode := c.mode
  isFp8Kvcache := c.isFp8Kvcache
  fp8HeadDim := c.fp8HeadDim
  rawFp8MlaLayout := c.rawFp8MlaLayout
  gdnNumSlots := if c.gdnAllocated.isSome then c.gdnSlots else 0
  gdnConvStride0 := strideOf c.gdnConvStates 0
  gdnConvStride1 := strideOf c.gdnConvStates 1
  gdnConvElementSize := elementSizeOf c.gdnConvStates
  gdnRecurrentStride0 := strideOf c.gdnRecurrentStates 0
  gdnRecurrentStride1 := strideOf c.gdnRecurrentStates 1
  gdnRecurrentElementSize := elementSizeOf c.gdnRecurrentStates
  indexerPageBytes := if c.indexerCache.isSome then c.blockSize * c.indexerBytesPerToken else 0
  compressedPoolPages := fun ratio => if c.hasRatio ratio then some (c.compressedNumPages ratio) else none
  compressedPageBytesByRatio := fun ratio =>
    if c.hasRatio ratio then some (dsv4CompressedPageSize * dsv4BytesPerToken) else none
  compressorSlotsPlusDummyByRatio := fun ratio => if c.hasRatio ratio then some (c.maxNumSeqs + 1) else none

/-- The numbers of a peer that `from_peer_metadata` takes. -/
structure PeerMetadata where
  numBlocks : ℕ
  gdnNumSlots : ℕ
  compressedPoolPages : ℕ → Option ℕ
  dsv4MaxSlots : ℕ
  numHiddenLayers : ℕ

/-- What a worker publishes: pool pages for all ratios of the model. -/
def CacheSetup.publish (c : CacheSetup) : PeerMetadata where
  numBlocks := c.numLocalKvcacheBlocks
  gdnNumSlots :=
    let maxBs := c.maxNumSeqs + c.gdnStateCacheSlots
    if 0 < c.numSpeculativeTokens then maxBs * 2 + 1 else maxBs + 1
  compressedPoolPages := fun ratio =>
    if c.mode = .dsv4 ∧ 0 < ratio ∧ ratio ∈ c.modelCompressRatios then some (c.compressedNumPages ratio) else none
  dsv4MaxSlots := c.maxNumSeqs
  numHiddenLayers := c.numHiddenLayers

namespace CacheTensorLayout

/-- `from_peer_metadata`; `x or y` is `y` where `x` is `0`. -/
def fromPeerMetadata (localLayout : CacheTensorLayout) (peer : PeerMetadata) : CacheTensorLayout :=
  let slots := if peer.gdnNumSlots = 0 then localLayout.gdnNumSlots else peer.gdnNumSlots
  { localLayout with
    numBlocks := peer.numBlocks
    numHiddenLayers := if peer.numHiddenLayers = 0 then localLayout.numHiddenLayers else peer.numHiddenLayers
    gdnNumSlots := slots
    gdnConvStride0 := slots * localLayout.gdnConvStride1
    gdnRecurrentStride0 := slots * localLayout.gdnRecurrentStride1
    compressedPoolPages := peer.compressedPoolPages
    compressorSlotsPlusDummyByRatio := fun ratio =>
      (localLayout.compressorSlotsPlusDummyByRatio ratio).map fun localSlots =>
        (if 0 < peer.dsv4MaxSlots then peer.dsv4MaxSlots else localSlots - 1) + 1 }

variable (l : CacheTensorLayout)

def blockStride (blockIdx : ℕ) : ℕ :=
  if l.mode = .dsv4 then blockIdx * l.blockSize * dsv4BytesPerToken
  else if l.isFp8Kvcache = true ∧ l.mode = .mla then
    let rows := if l.rawFp8MlaLayout then l.blockSize else l.blockSize + 1
    blockIdx * rows * l.fp8HeadDim
  else blockIdx * l.blockSize * l.numLocalKvHeads * l.headDim * l.dtypeItemsize

def blockNumBytes : ℕ :=
  if l.isFp8Kvcache = true ∧ l.mode = .mla then l.blockSize * l.fp8HeadDim else l.blockStride 1

def layerStride (layerIdx blockIdx : ℕ) : ℕ :=
  let layerBlocks := if l.mode = .dsv4 then l.numBlocks + 1 else l.numBlocks
  l.blockStride layerBlocks * layerIdx + l.blockStride blockIdx

/-- `none`: the `ValueError` for a second plane. -/
def kvStride (kvIdx layerIdx blockIdx : ℕ) : Option ℕ :=
  if l.mode = .dsv4 then
    if kvIdx ≠ 0 then none else some (l.layerStride layerIdx blockIdx)
  else some (l.layerStride l.numHiddenLayers 0 * kvIdx + l.layerStride layerIdx blockIdx)

/-- `none`: `-1`, here and in the other strides. -/
def gdnConvStride (layerIdx slotIdx : ℕ) : Option ℕ :=
  if l.gdnConvStride1 = 0 then none
  else some ((layerIdx * l.gdnConvStride0 + slotIdx * l.gdnConvStride1) * l.gdnConvElementSize)

def gdnRecurrentStride (layerIdx slotIdx : ℕ) : Option ℕ :=
  if l.gdnRecurrentStride1 = 0 then none
  else some ((layerIdx * l.gdnRecurrentStride0 + slotIdx * l.gdnRecurrentStride1) * l.gdnRecurrentElementSize)

def gdnConvSlotNumBytes : ℕ := l.gdnConvStride1 * l.gdnConvElementSize

def gdnRecurrentSlotNumBytes : ℕ := l.gdnRecurrentStride1 * l.gdnRecurrentElementSize

def indexerStride (layerIdx blockIdx : ℕ) : ℕ := (layerIdx * l.numBlocks + blockIdx) * l.indexerPageBytes

def compressedPageBytes (ratio : ℕ) : ℕ := (l.compressedPageBytesByRatio ratio).getD 0

def compressedStride (ratio ratioLayerIdx pageIdx : ℕ) : Option ℕ :=
  (l.compressedPoolPages ratio).map fun numPages =>
    (ratioLayerIdx * (numPages + 1) + pageIdx) * l.compressedPageBytes ratio

def compressorStateRowBytes (ratio : ℕ) (kind : CompressorKind) : ℕ :=
  if kind = .counts then 4
  else
    let coeff := if ratio = 4 then 2 else 1
    coeff * ratio * coeff * 512 * 4

def compressorStateStride (ratio ratioLayerIdx slot : ℕ) (kind : CompressorKind) : ℕ :=
  let slots := (l.compressorSlotsPlusDummyByRatio ratio).getD 0
  (ratioLayerIdx * slots + slot) * compressorStateRowBytes ratio kind

end CacheTensorLayout

/-! ## The ranges lie apart -/

namespace CacheSetup

variable {c : CacheSetup}

/-- The coordinates of the blocks: a plane, a layer and a block for which the tensor has an entry. -/
def kvCoords (c : CacheSetup) : Set (ℕ × ℕ × ℕ) :=
  {x | if c.mode = .dsv4 then x.1 = 0 ∧ Within c.kvCache.shape [x.2.1, x.2.2]
    else Within c.kvCache.shape [x.1, x.2.1, x.2.2]}

/-- The coordinates of the parts of a tensor at its first two axes. -/
def pairCoords (t : TensorSpec) : Set (ℕ × ℕ) := {x | Within t.shape [x.1, x.2]}

/-- The caches with planes. -/
theorem placed_planes {planes rows heads dim itemsize : ℕ} (hmode : c.mode ≠ .dsv4)
    (hcache : c.kvCache = ⟨[planes, c.numHiddenLayers, c.numLocalKvcacheBlocks, rows, heads, dim], itemsize⟩)
    (hstride : ∀ n, c.layout.blockStride n = n * (rows * heads * dim * itemsize))
    (hbytes : c.layout.blockNumBytes ≤ rows * heads * dim * itemsize) :
    Placed c.kvCoords (fun x => c.layout.kvStride x.1 x.2.1 x.2.2) c.layout.blockNumBytes c.kvCache.numBytes := by
  have hcoords : ∀ x ∈ c.kvCoords, Within c.kvCache.shape [x.1, x.2.1, x.2.2] := by
    intro x hx
    rwa [kvCoords, Set.mem_ofPred_eq, if_neg hmode] at hx
  refine Placed.of_offset (k := 3) (fun x => [x.1, x.2.1, x.2.2]) ?_ (fun _ => rfl) hcoords ?_ ?_
  · rintro ⟨p, l, b⟩ - ⟨p', l', b'⟩ - heq
    simpa using heq
  · intro x _
    have hmode' : c.layout.mode ≠ .dsv4 := hmode
    unfold CacheTensorLayout.kvStride CacheTensorLayout.layerStride
    rw [if_neg hmode', if_neg hmode']
    dsimp only
    rw [hstride, hstride, hstride, hcache]
    simp only [offset_cons, offset_nil, List.prod_cons, List.prod_nil, CacheSetup.layout]
    congr 1
    ring
  · rw [hcache]
    simpa [Nat.mul_assoc] using hbytes

theorem placed_kv (c : CacheSetup) :
    Placed c.kvCoords (fun x => c.layout.kvStride x.1 x.2.1 x.2.2) c.layout.blockNumBytes c.kvCache.numBytes := by
  cases hmode : c.mode with
  | gqa =>
    refine placed_planes (by rw [hmode]; decide) (by simp only [kvCache, hmode]; rfl) ?_ ?_
    · intro n
      simp [CacheTensorLayout.blockStride, layout, hmode, Nat.mul_assoc]
    · simp [CacheTensorLayout.blockNumBytes, CacheTensorLayout.blockStride, layout, hmode]
  | mla =>
    by_cases hfp8 : c.isFp8Kvcache = true
    · by_cases hraw : c.rawFp8MlaLayout = true
      · have hdim : c.fp8HeadDim = c.configuredHeadDim := by simp [fp8HeadDim, hmode, hfp8, hraw]
        refine placed_planes (by rw [hmode]; decide) (by simp only [kvCache, hmode, hfp8, hraw, if_true]; rfl) ?_ ?_
        · intro n
          simp [CacheTensorLayout.blockStride, layout, hmode, hfp8, hraw, hdim, Nat.mul_assoc]
        · simp [CacheTensorLayout.blockNumBytes, layout, hmode, hfp8, hdim]
      · refine placed_planes (by rw [hmode]; decide) (by simp only [kvCache, hmode, hfp8, hraw, if_true]; rfl) ?_ ?_
        · intro n
          simp [CacheTensorLayout.blockStride, layout, hmode, hfp8, hraw, Nat.mul_assoc]
        · -- the row that pads the block is not part of its bytes
          simp only [CacheTensorLayout.blockNumBytes, layout, hmode, hfp8, and_self, if_true, Nat.mul_one]
          exact Nat.mul_le_mul_right _ (Nat.le_succ _)
    · refine placed_planes (by rw [hmode]; decide) (by simp only [kvCache, hmode, hfp8]; rfl) ?_ ?_
      · intro n
        simp [CacheTensorLayout.blockStride, layout, hmode, hfp8, Nat.mul_assoc]
      · simp [CacheTensorLayout.blockNumBytes, CacheTensorLayout.blockStride, layout, hmode, hfp8]
  | dsv4 =>
    have hcoords : ∀ x ∈ c.kvCoords, x.1 = 0 ∧ Within c.kvCache.shape [x.2.1, x.2.2] := by
      intro x hx
      rwa [kvCoords, Set.mem_ofPred_eq, if_pos hmode] at hx
    refine Placed.of_offset (k := 2) (fun x => [x.2.1, x.2.2]) ?_ (fun _ => rfl) (fun x hx => (hcoords x hx).2) ?_ ?_
    · rintro ⟨p, l, b⟩ hx ⟨p', l', b'⟩ hy heq
      obtain rfl : p = 0 := (hcoords _ hx).1
      obtain rfl : p' = 0 := (hcoords _ hy).1
      simpa using heq
    · intro x hx
      simp only [CacheTensorLayout.kvStride, CacheTensorLayout.layerStride,
        CacheTensorLayout.blockStride, layout, hmode,
        kvCache, (hcoords x hx).1, ne_eq, not_true_eq_false, if_true, if_false, offset_cons, offset_nil, List.prod_cons,
        List.prod_nil]
      congr 1
      ring
    · simp [CacheTensorLayout.blockNumBytes, CacheTensorLayout.blockStride, layout, hmode, kvCache]

/-- The parts of a tensor at its first two axes, with the strides of the tensor. -/
theorem placed_pair {a b len itemsize : ℕ} {dims : List ℕ} {place : ℕ × ℕ → Option ℕ}
    (hplace : ∀ x ∈ pairCoords ⟨a :: b :: dims, itemsize⟩,
      place x = some ((x.1 * (b * dims.prod) + x.2 * dims.prod) * itemsize))
    (hlen : len ≤ dims.prod * itemsize) :
    Placed (pairCoords ⟨a :: b :: dims, itemsize⟩) place len
      (TensorSpec.numBytes ⟨a :: b :: dims, itemsize⟩) := by
  refine Placed.of_offset (k := 2) (fun x => [x.1, x.2]) ?_ (fun _ => rfl) (fun _ hx => hx) (fun x hx => ?_) hlen
  · rintro ⟨l, s⟩ - ⟨l', s'⟩ - heq
    simpa using heq
  · rw [hplace x hx]
    simp

/-- The slots of a recurrent cache, by the strides of its tensor. -/
theorem placed_states {a b itemsize stride0 stride1 elementSize : ℕ} {dims : List ℕ}
    (h0 : stride0 = (strides (a :: b :: dims)).getD 0 0) (h1 : stride1 = (strides (a :: b :: dims)).getD 1 0)
    (hsize : elementSize = itemsize) :
    Placed (pairCoords ⟨a :: b :: dims, itemsize⟩)
      (fun x => if stride1 = 0 then none else some ((x.1 * stride0 + x.2 * stride1) * elementSize))
        (stride1 * elementSize)
      (TensorSpec.numBytes ⟨a :: b :: dims, itemsize⟩) := by
  subst hsize
  by_cases hany : ∃ x, x ∈ pairCoords ⟨a :: b :: dims, elementSize⟩
  · obtain ⟨x, hx⟩ := hany
    obtain ⟨hs0, hs1, hpos⟩ := strides_pair hx
    rw [h0, h1, hs0, hs1]
    refine placed_pair (fun y _ => ?_) le_rfl
    rw [if_neg (Nat.ne_of_gt hpos)]
  · exact ⟨fun x hx => absurd ⟨x, hx⟩ hany, fun x hx => absurd ⟨x, hx⟩ hany⟩

theorem compressorStateStride_eq {ratio : ℕ} (hratio : c.hasRatio ratio = true) {kind : CompressorKind}
    (hkind : kind ≠ .counts) (x : ℕ × ℕ) :
    some (c.layout.compressorStateStride ratio x.1 x.2 kind) =
      some ((x.1 * ((c.maxNumSeqs + 1) * [compressorCoeff ratio * ratio, compressorCoeff ratio * 512].prod) +
        x.2 * [compressorCoeff ratio * ratio, compressorCoeff ratio * 512].prod) * 4) := by
  simp only [CacheTensorLayout.compressorStateStride, CacheTensorLayout.compressorStateRowBytes,
    layout, hratio, if_true,
    Option.getD_some, if_neg hkind, List.prod_cons, List.prod_nil, compressorCoeff]
  congr 1
  ring

theorem compressorStateRowBytes_le (ratio : ℕ) :
    CacheTensorLayout.compressorStateRowBytes ratio .kv ≤
        [compressorCoeff ratio * ratio, compressorCoeff ratio * 512].prod * 4 ∧
      CacheTensorLayout.compressorStateRowBytes ratio .score ≤
        [compressorCoeff ratio * ratio, compressorCoeff ratio * 512].prod * 4 := by
  constructor <;> simp [CacheTensorLayout.compressorStateRowBytes, compressorCoeff, Nat.mul_assoc]

/-- The byte ranges that the layout gives lie in the tensors of the caches, and those of one cache do not overlap. -/
structure Addressed (c : CacheSetup) : Prop where
  kv : Placed c.kvCoords (fun x => c.layout.kvStride x.1 x.2.1 x.2.2) c.layout.blockNumBytes c.kvCache.numBytes
  gdnConv : ∀ t, c.gdnConvStates = some t →
    Placed (pairCoords t) (fun x => c.layout.gdnConvStride x.1 x.2) c.layout.gdnConvSlotNumBytes t.numBytes
  gdnRecurrent : ∀ t, c.gdnRecurrentStates = some t →
    Placed (pairCoords t) (fun x => c.layout.gdnRecurrentStride x.1 x.2) c.layout.gdnRecurrentSlotNumBytes t.numBytes
  indexer : ∀ t, c.indexerCache = some t →
    Placed (pairCoords t) (fun x => some (c.layout.indexerStride x.1 x.2)) c.layout.indexerPageBytes t.numBytes
  compressed : ∀ ratio t, c.compressedCache ratio = some t →
    Placed (pairCoords t) (fun x => c.layout.compressedStride ratio x.1 x.2)
      (c.layout.compressedPageBytes ratio) t.numBytes
  compressor : ∀ ratio kind t, c.compressorState ratio kind = some t →
    Placed (pairCoords t) (fun x => some (c.layout.compressorStateStride ratio x.1 x.2 kind))
      (CacheTensorLayout.compressorStateRowBytes ratio kind) t.numBytes

theorem addressed (c : CacheSetup) : c.Addressed where
  kv := placed_kv c
  gdnConv := by
    intro t ht
    obtain ⟨dims, hdims, rfl⟩ := Option.map_eq_some_iff.1 ht
    refine placed_states ?_ ?_ ?_ <;>
      simp only [layout, strideOf, elementSizeOf, gdnConvStates, hdims, Option.map_some, Option.getD_some]
  gdnRecurrent := by
    intro t ht
    obtain ⟨dims, hdims, rfl⟩ := Option.map_eq_some_iff.1 ht
    refine placed_states ?_ ?_ ?_ <;>
      simp only [layout, strideOf, elementSizeOf, gdnRecurrentStates, hdims, Option.map_some, Option.getD_some]
  indexer := by
    intro t ht
    have hsome : c.indexerCache.isSome = true := by rw [ht]; rfl
    unfold indexerCache at ht
    split at ht
    case isTrue =>
      cases ht
      refine placed_pair (fun x _ => ?_) ?_
      · simp only [CacheTensorLayout.indexerStride, layout, hsome, if_true, List.prod_cons, List.prod_nil]
        congr 1
        ring
      · simp [layout, hsome]
    case isFalse => cases ht
  compressed := by
    intro ratio t ht
    unfold compressedCache at ht
    split at ht
    case isTrue hratio =>
      cases ht
      refine placed_pair (fun x _ => ?_) ?_
      · simp only [CacheTensorLayout.compressedStride, CacheTensorLayout.compressedPageBytes, layout, hratio, if_true,
          Option.map_some, Option.getD_some, List.prod_cons, List.prod_nil]
        congr 1
        ring
      · simp [CacheTensorLayout.compressedPageBytes, layout, hratio]
    case isFalse => cases ht
  compressor := by
    intro ratio kind t ht
    unfold compressorState at ht
    split at ht
    case isTrue hratio =>
      cases kind with
      | counts =>
        cases ht
        refine placed_pair (fun x _ => ?_) ?_
        · simp only [CacheTensorLayout.compressorStateStride,
            CacheTensorLayout.compressorStateRowBytes, layout, hratio,
            if_true, Option.getD_some, List.prod_nil]
          congr 1
          ring
        · simp [CacheTensorLayout.compressorStateRowBytes]
      | kv =>
        cases ht
        exact placed_pair (fun x _ => compressorStateStride_eq hratio (by decide) x)
          (compressorStateRowBytes_le ratio).1
      | score =>
        cases ht
        exact placed_pair (fun x _ => compressorStateStride_eq hratio (by decide) x)
          (compressorStateRowBytes_le ratio).2
    case isFalse => cases ht

/-! ## The offsets of a peer -/

/-- A worker `c` that pulls from a worker `d` set up alike: the number of blocks, the layers of the stage, the slots and
the pool pages may differ.  A ratio of the peer is one of the worker, which holds all layers when the peer is a stage.
-/
structure Peer (c d : CacheSetup) : Prop where
  mode : d.mode = c.mode
  numKvHeads : d.numKvHeads = c.numKvHeads
  headDim : d.headDim = c.headDim
  blockSize : d.blockSize = c.blockSize
  attentionTp : d.attentionTp = c.attentionTp
  dtypeItemsize : d.dtypeItemsize = c.dtypeItemsize
  kvLoraRank : d.kvLoraRank = c.kvLoraRank
  qkRopeHeadDim : d.qkRopeHeadDim = c.qkRopeHeadDim
  isFp8Kvcache : d.isFp8Kvcache = c.isFp8Kvcache
  rawFp8MlaLayout : d.rawFp8MlaLayout = c.rawFp8MlaLayout
  hasIndexer : d.hasIndexer = c.hasIndexer
  indexHeadDim : d.indexHeadDim = c.indexHeadDim
  gdn : d.gdn = c.gdn
  ratios : d.compressRatios ⊆ c.compressRatios
  slots : 0 < d.maxNumSeqs

/-- The layout that `c` builds from what `d` publishes. -/
def remoteLayout (c d : CacheSetup) : CacheTensorLayout := c.layout.fromPeerMetadata d.publish

/-- The offsets of the peer's blocks, states and pages that `c` computes are those that the peer computes. -/
structure Agrees (c d : CacheSetup) : Prop where
  kv : ∀ x ∈ d.kvCoords, (c.remoteLayout d).kvStride x.1 x.2.1 x.2.2 = d.layout.kvStride x.1 x.2.1 x.2.2
  gdnConv : ∀ layerIdx slotIdx, (c.remoteLayout d).gdnConvStride layerIdx slotIdx =
    d.layout.gdnConvStride layerIdx slotIdx
  gdnRecurrent : ∀ layerIdx slotIdx,
    (c.remoteLayout d).gdnRecurrentStride layerIdx slotIdx = d.layout.gdnRecurrentStride layerIdx slotIdx
  indexer : ∀ layerIdx blockIdx, (c.remoteLayout d).indexerStride layerIdx blockIdx =
    d.layout.indexerStride layerIdx blockIdx
  compressed : ∀ ratio t, d.compressedCache ratio = some t → ∀ x ∈ pairCoords t,
    (c.remoteLayout d).compressedStride ratio x.1 x.2 = d.layout.compressedStride ratio x.1 x.2
  compressor : ∀ ratio kind t, d.compressorState ratio kind = some t → ∀ x ∈ pairCoords t,
    (c.remoteLayout d).compressorStateStride ratio x.1 x.2 kind = d.layout.compressorStateStride ratio x.1 x.2 kind

variable {d : CacheSetup}

theorem numHiddenLayers_mem (c : CacheSetup) : c.numHiddenLayers ∈ c.kvCache.shape := by
  unfold kvCache
  cases c.mode with
  | gqa => simp
  | mla =>
    dsimp only
    split
    · split <;> simp
    · simp
  | dsv4 => simp

theorem kvCoords_layers {x : ℕ × ℕ × ℕ} (hx : x ∈ c.kvCoords) : c.numHiddenLayers ≠ 0 := by
  rw [kvCoords, Set.mem_ofPred_eq] at hx
  have hpos : ∀ n ∈ c.kvCache.shape, 0 < n := by
    split at hx
    · exact hx.2.pos
    · exact hx.pos
  exact Nat.ne_of_gt (hpos _ c.numHiddenLayers_mem)

theorem gdnSlots_pos (c : CacheSetup) : 0 < c.gdnSlots := by
  unfold gdnSlots
  dsimp only
  split <;> omega

namespace Peer

variable (h : Peer c d)
include h

theorem configuredHeadDim : d.configuredHeadDim = c.configuredHeadDim := by
  simp only [CacheSetup.configuredHeadDim, h.mode, h.headDim, h.kvLoraRank, h.qkRopeHeadDim]

theorem numLocalKvHeads : d.numLocalKvHeads = c.numLocalKvHeads := by
  simp only [CacheSetup.numLocalKvHeads, h.mode, h.numKvHeads, h.attentionTp]

theorem fp8HeadDim : d.fp8HeadDim = c.fp8HeadDim := by
  simp only [CacheSetup.fp8HeadDim, h.mode, h.isFp8Kvcache, h.rawFp8MlaLayout, h.configuredHeadDim, h.kvLoraRank,
    h.qkRopeHeadDim]

theorem blockStride (blockIdx : ℕ) : (c.remoteLayout d).blockStride blockIdx = d.layout.blockStride blockIdx := by
  have hmode : (c.remoteLayout d).mode = d.layout.mode := h.mode.symm
  have hsize : (c.remoteLayout d).blockSize = d.layout.blockSize := h.blockSize.symm
  have hfp8 : (c.remoteLayout d).isFp8Kvcache = d.layout.isFp8Kvcache := h.isFp8Kvcache.symm
  have hraw : (c.remoteLayout d).rawFp8MlaLayout = d.layout.rawFp8MlaLayout := h.rawFp8MlaLayout.symm
  have hfp8Dim : (c.remoteLayout d).fp8HeadDim = d.layout.fp8HeadDim := h.fp8HeadDim.symm
  have hheads : (c.remoteLayout d).numLocalKvHeads = d.layout.numLocalKvHeads := h.numLocalKvHeads.symm
  have hdim : (c.remoteLayout d).headDim = d.layout.headDim := h.configuredHeadDim.symm
  have hitem : (c.remoteLayout d).dtypeItemsize = d.layout.dtypeItemsize := h.dtypeItemsize.symm
  simp only [CacheTensorLayout.blockStride, hmode, hsize, hfp8, hraw, hfp8Dim, hheads, hdim, hitem]

theorem kvStride (hlayers : d.numHiddenLayers ≠ 0) (kvIdx layerIdx blockIdx : ℕ) :
    (c.remoteLayout d).kvStride kvIdx layerIdx blockIdx = d.layout.kvStride kvIdx layerIdx blockIdx := by
  have hmode : (c.remoteLayout d).mode = d.layout.mode := h.mode.symm
  have hblocks : (c.remoteLayout d).numBlocks = d.layout.numBlocks := rfl
  have hnum : (c.remoteLayout d).numHiddenLayers = d.layout.numHiddenLayers := if_neg hlayers
  simp only [CacheTensorLayout.kvStride, CacheTensorLayout.layerStride, hmode, hblocks, hnum, h.blockStride]

theorem gdnValueHeads (dims : GdnDims) : d.gdnValueHeads dims = c.gdnValueHeads dims := by
  simp only [CacheSetup.gdnValueHeads, h.attentionTp]

theorem gdnConvDim (dims : GdnDims) : d.gdnConvDim dims = c.gdnConvDim dims := by
  simp only [CacheSetup.gdnConvDim, h.gdnValueHeads, h.attentionTp]

theorem gdnAllocated : d.gdnAllocated = c.gdnAllocated := by
  simp only [CacheSetup.gdnAllocated, h.gdn, h.gdnValueHeads]

theorem hasRatio {ratio : ℕ} (hd : d.hasRatio ratio = true) : c.hasRatio ratio = true := by
  simp only [CacheSetup.hasRatio, Bool.and_eq_true, decide_eq_true_eq, h.mode] at hd ⊢
  exact ⟨hd.1, h.ratios hd.2⟩

omit h in
/-- The slots that a peer publishes are those of its tensors. -/
theorem remote_gdnSlots :
    (if d.publish.gdnNumSlots = 0 then c.layout.gdnNumSlots else d.publish.gdnNumSlots) = d.gdnSlots := by
  have hslots : d.publish.gdnNumSlots = d.gdnSlots := rfl
  rw [hslots, if_neg (Nat.ne_of_gt d.gdnSlots_pos)]

omit h in
/-- The first stride of a peer's recurrent cache, from the second stride of a local one with the same entries. -/
theorem stride_states {a a' b b' itemsize : ℕ} {dims : List ℕ} (hb : 0 < b) :
    strideOf (some ⟨a :: b :: dims, itemsize⟩) 0 = b * strideOf (some ⟨a' :: b' :: dims, itemsize⟩) 1 := by
  show ((b :: dims).map (max · 1)).prod = b * (dims.map (max · 1)).prod
  rw [List.map_cons, List.prod_cons, Nat.max_eq_left hb]

theorem gdnConv (layerIdx slotIdx : ℕ) :
    (c.remoteLayout d).gdnConvStride layerIdx slotIdx = d.layout.gdnConvStride layerIdx slotIdx := by
  have hstates : d.gdnConvStates = c.gdnAllocated.map fun dims =>
      ⟨[d.numGdnLayers, d.gdnSlots, c.gdnConvDim dims, dims.linearConvKernelDim], 2⟩ := by
    simp only [gdnConvStates, h.gdnAllocated, h.gdnConvDim]
  have hstride1 : (c.remoteLayout d).gdnConvStride1 = d.layout.gdnConvStride1 := by
    show strideOf c.gdnConvStates 1 = strideOf d.gdnConvStates 1
    rw [hstates, gdnConvStates]
    cases c.gdnAllocated <;> rfl
  have hstride0 : (c.remoteLayout d).gdnConvStride0 = d.layout.gdnConvStride0 := by
    show _ * strideOf c.gdnConvStates 1 = strideOf d.gdnConvStates 0
    rw [remote_gdnSlots, hstates, gdnConvStates]
    cases c.gdnAllocated with
    | none => rfl
    | some dims => exact (stride_states d.gdnSlots_pos).symm
  have hsize : (c.remoteLayout d).gdnConvElementSize = d.layout.gdnConvElementSize := by
    show elementSizeOf c.gdnConvStates = elementSizeOf d.gdnConvStates
    rw [hstates, gdnConvStates]
    cases c.gdnAllocated <;> rfl
  simp only [CacheTensorLayout.gdnConvStride, hstride0, hstride1, hsize]

theorem gdnRecurrent (layerIdx slotIdx : ℕ) :
    (c.remoteLayout d).gdnRecurrentStride layerIdx slotIdx = d.layout.gdnRecurrentStride layerIdx slotIdx := by
  have hstates : d.gdnRecurrentStates = c.gdnAllocated.map fun dims =>
      ⟨[d.numGdnLayers, d.gdnSlots, c.gdnValueHeads dims, dims.linearValueHeadDim, dims.linearKeyHeadDim],
        dims.recurrentItemsize⟩ := by
    simp only [gdnRecurrentStates, h.gdnAllocated, h.gdnValueHeads]
  have hstride1 : (c.remoteLayout d).gdnRecurrentStride1 = d.layout.gdnRecurrentStride1 := by
    show strideOf c.gdnRecurrentStates 1 = strideOf d.gdnRecurrentStates 1
    rw [hstates, gdnRecurrentStates]
    cases c.gdnAllocated <;> rfl
  have hstride0 : (c.remoteLayout d).gdnRecurrentStride0 = d.layout.gdnRecurrentStride0 := by
    show _ * strideOf c.gdnRecurrentStates 1 = strideOf d.gdnRecurrentStates 0
    rw [remote_gdnSlots, hstates, gdnRecurrentStates]
    cases c.gdnAllocated with
    | none => rfl
    | some dims => exact (stride_states d.gdnSlots_pos).symm
  have hsize : (c.remoteLayout d).gdnRecurrentElementSize = d.layout.gdnRecurrentElementSize := by
    show elementSizeOf c.gdnRecurrentStates = elementSizeOf d.gdnRecurrentStates
    rw [hstates, gdnRecurrentStates]
    cases c.gdnAllocated <;> rfl
  simp only [CacheTensorLayout.gdnRecurrentStride, hstride0, hstride1, hsize]

theorem indexer (layerIdx blockIdx : ℕ) :
    (c.remoteLayout d).indexerStride layerIdx blockIdx = d.layout.indexerStride layerIdx blockIdx := by
  have htoken : d.indexerBytesPerToken = c.indexerBytesPerToken := by
    simp only [CacheSetup.indexerBytesPerToken, h.indexHeadDim]
  have hbytes : (c.remoteLayout d).indexerPageBytes = d.layout.indexerPageBytes := by
    simp only [remoteLayout, CacheTensorLayout.fromPeerMetadata, layout, indexerCache, h.hasIndexer, h.indexHeadDim,
      h.blockSize, htoken]
    split <;> rfl
  have hblocks : (c.remoteLayout d).numBlocks = d.layout.numBlocks := rfl
  simp only [CacheTensorLayout.indexerStride, hbytes, hblocks]

theorem compressed {ratio : ℕ} (hratio : d.hasRatio ratio = true) (ratioLayerIdx pageIdx : ℕ) :
    (c.remoteLayout d).compressedStride ratio ratioLayerIdx pageIdx =
      d.layout.compressedStride ratio ratioLayerIdx pageIdx := by
  have hlocal := h.hasRatio hratio
  have hpages : (c.remoteLayout d).compressedPoolPages ratio = d.layout.compressedPoolPages ratio := by
    have hd := hratio
    simp only [CacheSetup.hasRatio, Bool.and_eq_true, decide_eq_true_eq] at hd
    show (if _ then _ else _) = (if _ then _ else _)
    rw [if_pos ⟨hd.1.1, hd.1.2, d.stage hd.2⟩, if_pos hratio]
  have hbytes : (c.remoteLayout d).compressedPageBytesByRatio ratio = d.layout.compressedPageBytesByRatio ratio := by
    show (if _ then _ else _) = (if _ then _ else _)
    rw [if_pos hlocal, if_pos hratio]
  simp only [CacheTensorLayout.compressedStride, CacheTensorLayout.compressedPageBytes, hpages, hbytes]

theorem compressor {ratio : ℕ} (hratio : d.hasRatio ratio = true) (ratioLayerIdx slot : ℕ) (kind : CompressorKind) :
    (c.remoteLayout d).compressorStateStride ratio ratioLayerIdx slot kind =
      d.layout.compressorStateStride ratio ratioLayerIdx slot kind := by
  have hlocal := h.hasRatio hratio
  have hslots : (c.remoteLayout d).compressorSlotsPlusDummyByRatio ratio =
    d.layout.compressorSlotsPlusDummyByRatio ratio := by
    show Option.map _ (if _ then _ else _) = (if _ then _ else _)
    rw [if_pos hlocal, if_pos hratio, Option.map_some]
    exact congrArg (fun n => some (n + 1)) (if_pos h.slots)
  simp only [CacheTensorLayout.compressorStateStride, hslots]

theorem agrees : c.Agrees d where
  kv := fun x hx => h.kvStride (kvCoords_layers hx) _ _ _
  gdnConv := h.gdnConv
  gdnRecurrent := h.gdnRecurrent
  indexer := h.indexer
  compressed := by
    intro ratio t ht x _
    unfold compressedCache at ht
    split at ht
    case isTrue hratio => exact h.compressed hratio x.1 x.2
    case isFalse => cases ht
  compressor := by
    intro ratio kind t ht x _
    unfold compressorState at ht
    split at ht
    case isTrue hratio => exact h.compressor hratio x.1 x.2 kind
    case isFalse => cases ht

end Peer

/-- **Cache addresses are exact**: the ranges of every cache lie apart in its tensor, and those computed for a peer are
the peer's own. -/
theorem addresses_exact (c : CacheSetup) : c.Addressed ∧ ∀ d, Peer c d → c.Agrees d :=
  ⟨c.addressed, fun _ h => h.agrees⟩

/-- A compressed cache with two layers of ratio `4`. -/
def compressedSetup : CacheSetup where
  mode := .dsv4
  numKvHeads := 1
  headDim := 512
  blockSize := 64
  attentionTp := 1
  dtypeItemsize := 2
  kvLoraRank := 0
  qkRopeHeadDim := 0
  isFp8Kvcache := false
  rawFp8MlaLayout := false
  hasIndexer := false
  indexHeadDim := 0
  gdn := none
  numHiddenLayers := 3
  numGdnLayers := 0
  compressRatios := [4, 128, 4]
  modelCompressRatios := [4, 128, 4]
  numLocalKvcacheBlocks := 10
  maxNumSeqs := 2
  gdnStateCacheSlots := 0
  numSpeculativeTokens := 0
  maxModelLen := 256
  poolPagesRatio4 := 0
  poolPagesRatio128 := 0
  stage := List.Subset.refl _

/-- Its peer: a stage of two layers with a pool of its own size. -/
def compressedStage : CacheSetup :=
  { compressedSetup with
    numHiddenLayers := 2
    compressRatios := [4, 4]
    numLocalKvcacheBlocks := 7
    maxNumSeqs := 5
    poolPagesRatio4 := 9
    stage := by decide }

theorem addresses_exact_stage : compressedSetup.Agrees compressedStage ∧
    (compressedSetup.remoteLayout compressedStage).compressedStride 4 1 3 = some (13 * 1168) :=
  ⟨(addresses_exact compressedSetup).2 compressedStage
    ⟨rfl, rfl, rfl, rfl, rfl, rfl, rfl, rfl, rfl, rfl, rfl, rfl, rfl, by decide, by decide⟩, by decide⟩

end CacheSetup

end NanoEngine.Disagg
