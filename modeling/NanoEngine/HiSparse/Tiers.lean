import NanoEngine.HiSparse.Launch
import NanoEngine.Lib.Updates

/-!
# NanoEngine.HiSparse.Tiers — decode over a hot and a cold tier

`runtime/context/cache/hisparse.py` and the decode path of `DeepseekV2Attention.forward`: the cold tier is the whole
paged cache in host memory, the hot tier has one fixed range of rows for every scheduler slot.

* `HiSparseConfig`: the sizes of `initialize_mla_hisparse_cache`.
* `Forward`: one layer of a decode batch; `stageMlaSparseIndices` or, for hot indices that are cached,
  `mapMlaOutputSlots`, then `storeKcache` and `writebackMlaOutputPages` in its order.
* `Forward.plain`: the same layer on a cache that is not tiered.
* `tierSystem`: any order of decode layers, slot owners and writes to the cold tier from outside.
* `plainStep`: the same operations on caches that are not tiered.
* `Shaped`, `Paged`, `Follows`, `tierGuard`: what the scheduler and the pages give to a batch.
-/

namespace NanoEngine.HiSparse

open Transition Updates

variable {B : Type*} {D : ℕ}

/-! ### Sizes -/

/-- `hash_capacity <<= 1` while it is below what is needed. -/
def doubleUntil (needed : ℕ) : ℕ → ℕ → ℕ
  | 0, hashCapacity => hashCapacity
  | fuel + 1, hashCapacity =>
    if hashCapacity < needed then doubleUntil needed fuel (hashCapacity <<< 1) else hashCapacity

theorem doubleUntil_spec (needed : ℕ) : ∀ fuel m : ℕ, needed ≤ 2 ^ m + fuel →
    ∃ m', doubleUntil needed fuel (2 ^ m) = 2 ^ m' ∧ needed ≤ 2 ^ m' := by
  intro fuel
  induction fuel with
  | zero => exact fun m h => ⟨m, rfl, h⟩
  | succ fuel ih =>
    intro m h
    rw [doubleUntil]
    split
    case isTrue hlt =>
      have hpos := Nat.two_pow_pos m
      rw [Nat.shiftLeft_eq, ← pow_add]
      exact ih (m + 1) (by rw [pow_succ]; omega)
    case isFalse hge => exact ⟨m, rfl, Nat.le_of_not_lt hge⟩

structure HiSparseConfig where
  maxNumSeqs : ℕ
  deviceBufferSize : ℕ
  blockSize : ℕ

namespace HiSparseConfig

variable (c : HiSparseConfig)

def slotStrideTokens : ℕ := c.deviceBufferSize + c.blockSize

def hotBlocksPerSeq : ℕ := max 1 ((c.slotStrideTokens + c.blockSize - 1) / c.blockSize)

def tokensPerSeq : ℕ := c.hotBlocksPerSeq * c.blockSize

def maxUnionEntries : ℕ := max 1 c.deviceBufferSize

def unionHashCapacity : ℕ := doubleUntil (2 * c.maxUnionEntries) (2 * c.maxUnionEntries) 1

/-- The block and the offset of a row of a cache. -/
def pageOf (index : ℕ) : ℕ × ℕ := (index / c.blockSize, index % c.blockSize)

theorem unionHashCapacity_spec : ∃ m, c.unionHashCapacity = 2 ^ m ∧ 2 * c.deviceBufferSize ≤ 2 ^ m := by
  obtain ⟨m, hm, hle⟩ := doubleUntil_spec (2 * c.maxUnionEntries) (2 * c.maxUnionEntries) 0 (Nat.le_add_left _ _)
  have hmax : c.deviceBufferSize ≤ c.maxUnionEntries := Nat.le_max_right _ _
  exact ⟨m, hm, by omega⟩

end HiSparseConfig

/-! ### State -/

/-- The two tiers of every layer, the hash tables that the layers share, and what the last layer read.  `kv` and
`served` follow the run and no step reads them: the row last written for a token of a sequence, and the lengths that a
slot has been served with in a layer and a phase since its flags were cleared. -/
structure Tiers (B : Type*) (D : ℕ) where
  slotOwnerIds : ℕ → ℤ
  residentTokens : ℕ → ℕ × ℕ → Bool
  hot : ℕ → ℕ × ℕ → Fin D → B
  cold : ℕ → ℕ × ℕ → Fin D → B
  unionHashEntries : ℕ × ℕ → ℕ
  unionHashValues : ℕ × ℕ → ℕ
  reads : ℕ × ℕ → Option (Fin D → B)
  kv : ℤ → ℕ → ℕ → Fin D → B
  served : ℕ → List (ℤ × ℕ × ℕ)

/-- One layer of a decode batch of `num_reqs` requests with `ntps` rows each; `items` are the rows as `store_kcache`
encodes them, `cachedHotIndices` the hot indices that a recurrent draft has kept (`require_hisparse`), `result` and
`emptySlots` what the tensors of the results held before, `schedule` the order of the steps on the device. -/
structure Forward (B : Type*) (D : ℕ) where
  layerIdx : ℕ
  phaseId : ℕ
  numReqs : ℕ
  numRealReqs : ℕ
  ntps : ℕ
  topk : ℕ
  hisparseSlots : ℕ → ℤ
  contextLens : ℕ → ℤ
  blockTables : ℕ → ℕ → ℤ
  slotMapping : ℕ → ℤ
  topkIndices : ℕ → ℕ → ℤ
  items : ℕ → Fin D → B
  cachedHotIndices : Option (ℕ × ℕ → ℤ)
  result : ℕ × ℕ → ℤ
  emptySlots : ℕ → ℤ
  schedule : List (LoadOp D)

/-- `store_kcache`: row by row, `-1` is skipped. -/
def storeKcache (c : HiSparseConfig) (rows : ℕ) (cache : ℕ × ℕ → Fin D → B) (slots : ℕ → ℤ)
    (items : ℕ → Fin D → B) :
    ℕ × ℕ → Fin D → B :=
  updateEach (fun row => c.pageOf (slots row).toNat) (fun row _ => items row)
    ((List.range rows).filter fun row => slots row ≠ -1) cache

/-- The rows that the attention reads by their indices; `-1` is skipped. -/
def attend (c : HiSparseConfig) (cache : ℕ × ℕ → Fin D → B) (indices : ℕ × ℕ → ℤ)
    (b : ℕ × ℕ) : Option (Fin D → B) :=
  if 0 ≤ indices b then some (cache (c.pageOf (indices b).toNat)) else none

namespace Forward

variable (c : HiSparseConfig) (f : Forward B D)

def numRows : ℕ := f.numReqs * f.ntps

def realRows : ℕ := f.numRealReqs * f.ntps

/-- The physical index of a position of a request. -/
def physical (r pos : ℕ) : ℤ := f.blockTables r (pos / c.blockSize) * (c.blockSize : ℤ) +
    ((pos % c.blockSize : ℕ) : ℤ)

/-- `topk_indices_to_physical`, with the block table repeated for the rows of a request. -/
def topkIndicesToPhysical (row i : ℕ) : ℤ :=
  if 0 ≤ f.topkIndices row i then f.physical c (row / f.ntps) (f.topkIndices row i).toNat else -1

/-- The arguments of `load_mla_slot`; slots and lengths are repeated for the rows of a request. -/
def loadArgs (cold : ℕ × ℕ → Fin D → B) : LoadArgs B D where
  logicalIndices := f.topkIndices
  indices := f.topkIndicesToPhysical c
  requestSlots row := f.hisparseSlots (row / f.ntps)
  seqLens row := f.contextLens (row / f.ntps)
  cold := cold
  numRealReqs := f.numRealReqs
  numRows := f.numRows
  topk := f.topk
  maxNumSeqs := c.maxNumSeqs
  hotCapacity := c.deviceBufferSize
  slotStrideTokens := c.tokensPerSeq
  unionHashCapacity := c.unionHashCapacity
  numTokensPerSeq := max 1 f.ntps
  layerId := f.layerIdx
  phaseId := f.phaseId
  blockSize := c.blockSize

/-- The checks of `stage_mla_sparse_indices` on the sizes. -/
def SizesFit : Prop :=
  f.topk ≤ c.deviceBufferSize ∧ f.topk * max 1 f.ntps ≤ c.deviceBufferSize ∧
    max 1 f.ntps ≤ c.tokensPerSeq - c.deviceBufferSize

instance : Decidable (f.SizesFit c) := inferInstanceAs (Decidable (_ ∧ _ ∧ _))

/-- The memory at the start of the launch. -/
def launchState (x : Tiers B D) : LoadState B D where
  pc _ := .start
  unionHashEntries := x.unionHashEntries
  unionHashValues := x.unionHashValues
  residentTokens := x.residentTokens f.layerIdx
  hot := x.hot f.layerIdx
  output := f.result
  hotOutputSlots := f.emptySlots

/-- `stage_mla_sparse_indices`: `none` when a check raises, or when the schedule is not one of a whole launch. -/
def stageMlaSparseIndices (x : Tiers B D) : Option (LoadState B D) :=
  if f.SizesFit c then
    (run (loadSystem (f.loadArgs c (x.cold f.layerIdx)) (f.launchState x)) always f.schedule (f.launchState x)).filter
      fun s => decide (Finished (f.loadArgs c (x.cold f.layerIdx)) s)
  else none

/-- `map_mla_output_slots`, with slots and lengths repeated for the rows of a request. -/
def mapMlaOutputSlots (row : ℕ) : ℤ :=
  let width := max 1 f.ntps
  let reqOffset := row / width
  let tokenStep := row - reqOffset * width
  let slot := f.hisparseSlots (row / f.ntps)
  let len := f.contextLens (row / f.ntps)
  let outputPosition := len - (width : ℤ) + (tokenStep : ℤ)
  let short := 0 < len ∧ len ≤ (c.deviceBufferSize : ℤ)
  let offset := if short then outputPosition else (c.deviceBufferSize : ℤ) + (tokenStep : ℤ)
  if 0 ≤ slot ∧ slot < (c.maxNumSeqs : ℤ) ∧ 0 ≤ outputPosition ∧ reqOffset < f.numRealReqs then
    slot * (c.tokensPerSeq : ℤ) + offset
  else -1

/-- What the attention will read and where the new rows go: hot indices that are cached are read without a launch. -/
def stage (x : Tiers B D) : Option (LoadState B D) :=
  match f.cachedHotIndices with
  | some indices => some { f.launchState x with output := indices, hotOutputSlots := f.mapMlaOutputSlots c }
  | none => f.stageMlaSparseIndices c x

/-- `writeback_mla_output_pages`. -/
def writebackMlaOutputPages (cold hot : ℕ × ℕ → Fin D → B)
    (hotOutputSlots : ℕ → ℤ) : ℕ × ℕ → Fin D → B :=
  updateEach (fun row => c.pageOf (f.slotMapping row).toNat) (fun row _ => hot (c.pageOf (hotOutputSlots row).toNat))
    ((List.range f.numRows).filter fun row =>
      decide (row < f.numRealReqs * max 1 f.ntps) && decide (0 ≤ f.slotMapping row) &&
        decide (0 ≤ hotOutputSlots row)) cold

/-- The rows that the batch writes, by sequence and position. -/
def writeKv (x : Tiers B D) : ℤ → ℕ → ℕ → Fin D → B := fun id layer pos =>
  if layer = f.layerIdx then
    match (List.range f.realRows).find? fun row =>
      decide (x.slotOwnerIds (f.hisparseSlots (row / f.ntps)).toNat = id ∧
        f.contextLens (row / f.ntps) - (f.ntps : ℤ) + ((row % f.ntps : ℕ) : ℤ) = (pos : ℤ)) with
    | some row => f.items row
    | none => x.kv id layer pos
  else x.kv id layer pos

/-- The lengths are recorded for the slots of the batch. -/
def serve (x : Tiers B D) : ℕ → List (ℤ × ℕ × ℕ) := fun slot =>
  ((List.range f.numRealReqs).filter fun r => (f.hisparseSlots r).toNat = slot).map
    (fun r => (f.contextLens r, f.layerIdx, f.phaseId)) ++ x.served slot

/-- After the staging: the new rows are stored in the hot tier, the attention reads there, and the new rows go to the
cold tier. -/
def finish (x : Tiers B D) (s : LoadState B D) : Tiers B D :=
  let hot := storeKcache c f.numRows s.hot s.hotOutputSlots f.items
  { x with
    residentTokens := Function.update x.residentTokens f.layerIdx s.residentTokens
    hot := Function.update x.hot f.layerIdx hot
    cold := Function.update x.cold f.layerIdx (f.writebackMlaOutputPages c (x.cold f.layerIdx) hot s.hotOutputSlots)
    unionHashEntries := s.unionHashEntries
    unionHashValues := s.unionHashValues
    reads := attend c hot s.output
    kv := f.writeKv x
    served := f.serve x }

def forward (x : Tiers B D) : Option (Tiers B D) := (f.stage c x).map (f.finish c x)

/-- The layer on a cache that is not tiered: the new rows are stored under their physical index, and the attention reads
there. -/
def plain (cache : ℕ × ℕ → Fin D → B) :
    (ℕ × ℕ → Fin D → B) × (ℕ × ℕ → Option (Fin D → B)) :=
  let cache := storeKcache c f.numRows cache f.slotMapping f.items
  (cache, attend c cache fun b => f.topkIndicesToPhysical c b.1 b.2)

end Forward

/-! ### Slot owners -/

namespace Tiers

variable (c : HiSparseConfig) (x : Tiers B D)

/-- `reset_mla_hisparse_slots`, for one slot. -/
def resetSlot (slot : ℕ) : Tiers B D :=
  { x with
    residentTokens := fun layer p => if p.1 = slot then false else x.residentTokens layer p
    unionHashEntries := fun p => if p.1 = slot then 0 else x.unionHashEntries p
    served := Function.update x.served slot [] }

/-- `update_mla_hisparse_slot_owners`, for one pair: a slot with a new owner is cleared. -/
def updateOwner (slot seqId : ℤ) : Tiers B D :=
  if 0 ≤ slot ∧ slot < (c.maxNumSeqs : ℤ) ∧ x.slotOwnerIds slot.toNat ≠ seqId then
    { x with slotOwnerIds := Function.update x.slotOwnerIds slot.toNat seqId }.resetSlot slot.toNat
  else x

def updateMlaHisparseSlotOwners (pairs : List (ℤ × ℤ)) : Tiers B D :=
  pairs.foldl (fun x p => x.updateOwner c p.1 p.2) x

/-- The row of a token is written to the cold tier by a prefill or by a transfer. -/
def writeCold (seqId : ℤ) (layer pos index : ℕ) (item : Fin D → B) : Tiers B D :=
  { x with
    cold := Function.update x.cold layer (Function.update (x.cold layer) (c.pageOf index) item)
    kv := fun id l p => if id = seqId ∧ l = layer ∧ p = pos then item else x.kv id l p }

end Tiers

inductive TierOp (B : Type*) (D : ℕ)
  | owners (pairs : List (ℤ × ℤ))
  | writeCold (seqId : ℤ) (layer pos index : ℕ) (item : Fin D → B)
  | forward (f : Forward B D)

def tierSystem (B : Type*) (D : ℕ) (c : HiSparseConfig) : System (Tiers B D) (TierOp B D) where
  initial x := (∀ layer p, x.residentTokens layer p = false) ∧ (∀ p, x.unionHashEntries p = 0) ∧
    (∀ slot, x.slotOwnerIds slot = -1) ∧ ∀ slot, x.served slot = []
  next x
    | .owners pairs => some (x.updateMlaHisparseSlotOwners c pairs)
    | .writeCold seqId layer pos index item => some (x.writeCold c seqId layer pos index item)
    | .forward f => f.forward c x

/-- The same on caches that are not tiered. -/
def plainStep (c : HiSparseConfig) (caches : ℕ → ℕ × ℕ → Fin D → B) :
    TierOp B D → ℕ → ℕ × ℕ → Fin D → B
  | .owners _ => caches
  | .writeCold _ layer _ index item =>
    Function.update caches layer (Function.update (caches layer) (c.pageOf index) item)
  | .forward f => Function.update caches f.layerIdx (f.plain c (caches f.layerIdx)).1

/-! ### Guard -/

namespace Forward

variable (c : HiSparseConfig) (f : Forward B D) (x : Tiers B D)

def slot (r : ℕ) : ℕ := (f.hisparseSlots r).toNat

/-- The owner of the slot of a request. -/
def owner (r : ℕ) : ℤ := x.slotOwnerIds (f.slot r)

/-- The number of tokens before the ones that the batch writes. -/
def start (r : ℕ) : ℕ := (f.contextLens r - (f.ntps : ℤ)).toNat

/-- Sizes of the batch, its slots and its selections. -/
structure Shaped : Prop where
  ntps : 0 < f.ntps
  topk : 0 < f.topk
  real : f.numRealReqs ≤ f.numReqs
  layer : f.layerIdx < 128
  phase : f.phaseId < 8
  slots : ∀ r < f.numRealReqs, 0 ≤ f.hisparseSlots r ∧ f.hisparseSlots r < (c.maxNumSeqs : ℤ)
  lens : ∀ r < f.numRealReqs, (f.ntps : ℤ) ≤ f.contextLens r ∧ f.contextLens r < 2 ^ 21
  selected : ∀ row < f.numRows, ∀ i < f.topk, f.topkIndices row i < 2 ^ 21 ∧
    (row < f.realRows → f.topkIndices row i < f.contextLens (row / f.ntps))

/-- The pages of the requests: they hold the tokens before the new ones, and the new ones get rows of their own. -/
structure Paged : Prop where
  tables : ∀ r < f.numRealReqs, ∀ pos < (f.contextLens r).toNat, 0 ≤ f.blockTables r (pos / c.blockSize)
  mapping : ∀ row < f.realRows, f.slotMapping row =
    f.physical c (row / f.ntps) (f.start (row / f.ntps) + row % f.ntps)
  padding : ∀ row < f.numRows, f.realRows ≤ row → f.slotMapping row = -1
  separate : ∀ row < f.realRows, ∀ row' < f.realRows, f.slotMapping row = f.slotMapping row' → row = row'
  apart : ∀ row < f.realRows, ∀ r < f.numRealReqs, ∀ pos < f.start r, f.physical c r pos ≠ f.slotMapping row
  backed : ∀ r < f.numRealReqs, ∀ pos < f.start r,
    x.cold f.layerIdx (c.pageOf (f.physical c r pos).toNat) = x.kv (f.owner x r) f.layerIdx pos

/-- A slot that the sequence of a request has left was not served beyond the tokens before the new ones. -/
def Left (r : ℕ) : Prop :=
  ∀ slot < c.maxNumSeqs, slot ≠ f.slot r ∧ x.slotOwnerIds slot = f.owner x r →
    ∀ e ∈ x.served slot, e.2.1 = f.layerIdx → e.1 ≤ (f.start r : ℤ)

instance (r : ℕ) : Decidable (f.Left c x r) :=
  inferInstanceAs (Decidable (∀ slot < c.maxNumSeqs, slot ≠ f.slot r ∧ x.slotOwnerIds slot = f.owner x r →
    ∀ e ∈ x.served slot, e.2.1 = f.layerIdx → e.1 ≤ (f.start r : ℤ)))

/-- The slots of the requests belong to different sequences, and the lengths go on from those that were served. -/
structure Follows : Prop where
  owners : ∀ r < f.numRealReqs, ∀ r' < f.numRealReqs, f.owner x r = f.owner x r' → r = r'
  fresh : ∀ r < f.numRealReqs, (f.contextLens r, f.layerIdx, f.phaseId) ∉ x.served (f.slot r)
  longer : ∀ r < f.numRealReqs, ∀ e ∈ x.served (f.slot r), e.2.1 = f.layerIdx → e.1 ≤ f.contextLens r
  left : ∀ r < f.numRealReqs, f.Left c x r

instance : Decidable (f.Shaped c) := decidable_of_iff
  ((0 < f.ntps ∧ 0 < f.topk ∧ f.numRealReqs ≤ f.numReqs ∧ f.layerIdx < 128 ∧ f.phaseId < 8) ∧
    (∀ r < f.numRealReqs, 0 ≤ f.hisparseSlots r ∧ f.hisparseSlots r < (c.maxNumSeqs : ℤ)) ∧
    (∀ r < f.numRealReqs, (f.ntps : ℤ) ≤ f.contextLens r ∧ f.contextLens r < 2 ^ 21) ∧
    ∀ row < f.numRows, ∀ i < f.topk, f.topkIndices row i < 2 ^ 21 ∧
      (row < f.realRows → f.topkIndices row i < f.contextLens (row / f.ntps)))
  ⟨fun ⟨⟨h₁, h₂, h₃, h₄, h₅⟩, h₆, h₇, h₈⟩ =>
    ⟨h₁, h₂, h₃, h₄, h₅, h₆, h₇, h₈⟩,
    fun ⟨h₁, h₂, h₃, h₄, h₅, h₆, h₇, h₈⟩ =>
      ⟨⟨h₁, h₂, h₃, h₄, h₅⟩, h₆, h₇, h₈⟩⟩

instance [DecidableEq B] : Decidable (f.Paged c x) := decidable_of_iff
  ((∀ r < f.numRealReqs, ∀ pos < (f.contextLens r).toNat, 0 ≤ f.blockTables r (pos / c.blockSize)) ∧
    (∀ row < f.realRows, f.slotMapping row = f.physical c (row / f.ntps) (f.start (row / f.ntps) + row % f.ntps)) ∧
    (∀ row < f.numRows, f.realRows ≤ row → f.slotMapping row = -1) ∧
    (∀ row < f.realRows, ∀ row' < f.realRows, f.slotMapping row = f.slotMapping row' → row = row') ∧
    (∀ row < f.realRows, ∀ r < f.numRealReqs, ∀ pos < f.start r, f.physical c r pos ≠ f.slotMapping row) ∧
    ∀ r < f.numRealReqs, ∀ pos < f.start r,
      x.cold f.layerIdx (c.pageOf (f.physical c r pos).toNat) = x.kv (f.owner x r) f.layerIdx pos)
  ⟨fun ⟨h₁, h₂, h₃, h₄, h₅, h₆⟩ => ⟨h₁, h₂, h₃, h₄, h₅, h₆⟩,
    fun ⟨h₁, h₂, h₃, h₄, h₅, h₆⟩ => ⟨h₁, h₂, h₃, h₄, h₅, h₆⟩⟩

instance : Decidable (f.Follows c x) := decidable_of_iff
  ((∀ r < f.numRealReqs, ∀ r' < f.numRealReqs, f.owner x r = f.owner x r' → r = r') ∧
    (∀ r < f.numRealReqs, (f.contextLens r, f.layerIdx, f.phaseId) ∉ x.served (f.slot r)) ∧
    (∀ r < f.numRealReqs, ∀ e ∈ x.served (f.slot r), e.2.1 = f.layerIdx → e.1 ≤ f.contextLens r) ∧
    ∀ r < f.numRealReqs, f.Left c x r)
  ⟨fun ⟨h₁, h₂, h₃, h₄⟩ => ⟨h₁, h₂, h₃, h₄⟩,
    fun ⟨h₁, h₂, h₃, h₄⟩ => ⟨h₁, h₂, h₃, h₄⟩⟩

end Forward

/-- A row that comes back for a token of a slot's owner is the one that it had. -/
def Tiers.Rewrites (c : HiSparseConfig) (x : Tiers B D) (seqId : ℤ) (layer pos : ℕ) (item : Fin D → B) : Prop :=
  x.kv seqId layer pos = item ∨ ∀ slot < c.maxNumSeqs, x.slotOwnerIds slot ≠ seqId

instance [DecidableEq B] (c : HiSparseConfig) (x : Tiers B D) (seqId : ℤ) (layer pos : ℕ) (item : Fin D → B) :
    Decidable (x.Rewrites c seqId layer pos item) := inferInstanceAs (Decidable (_ ∨ _))

/-- The layer stages its selection, and the batch, its pages and its order are those of the scheduler. -/
def tierGuard [DecidableEq B] (c : HiSparseConfig) (x : Tiers B D) : TierOp B D → Bool
  | .owners _ => true
  | .writeCold seqId layer pos _ item => decide (x.Rewrites c seqId layer pos item)
  | .forward f => f.cachedHotIndices.isNone && decide (f.Shaped c) && decide (f.Paged c x) && decide (f.Follows c x)

end NanoEngine.HiSparse
