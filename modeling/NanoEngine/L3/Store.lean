import Mathlib.Data.UInt
import NanoEngine.Disagg.CacheLayout
import NanoEngine.Lib.Transition

/-!
# NanoEngine.L3.Store — the blocks of a worker on the file system

`Hf3fsL3Store` of `runtime/disagg/storage/l3_hf3fs.py`, over the `kv_cache` that `Disagg.CacheLayout` allocates.  A file
system is a map from paths to bytes, and `WriteOutcome` says how far a write comes.

* A subview of `kv_cache` is its bytes in order.  Only the first block of the staging buffer is used.
* `completed` is a history: the blocks whose store came to its end, with the bytes of the source.
* `Intact`: the invariant.  `Complete`: what `exists` reports is whole.
* `present_complete`: along runs whose writes are whole.
-/

/-! ## The layout -/

namespace NanoEngine.Disagg.CacheSetup

variable (c : CacheSetup)

/-- `context.kv_cache`: without the row that pads a packed block. -/
def kvView : TensorSpec :=
  if c.mode = .mla ∧ c.isFp8Kvcache ∧ ¬c.rawFp8MlaLayout then
    ⟨[1, c.numHiddenLayers, c.numLocalKvcacheBlocks, c.blockSize, 1, c.fp8HeadDim], 1⟩
  else c.kvCache

/-- `_compute_block_nbytes`. -/
def computeBlockNbytes : ℕ :=
  if c.mode = .dsv4 then c.numHiddenLayers * (c.blockSize * 584)
  else if c.mode = .mla ∧ c.isFp8Kvcache then c.numHiddenLayers * (c.blockSize * c.fp8HeadDim)
  else
    let kvCount := if c.mode = .gqa then 2 else 1
    kvCount * c.numHiddenLayers * (c.blockSize * c.numLocalKvHeads * c.configuredHeadDim * c.dtypeItemsize)

/-- `_kv_count`. -/
def kvCount : ℕ := if c.mode = .gqa then 2 else 1

/-- `kv[:, block_id]` or `kv[kv_idx, :, block_id]`. -/
def subview : TensorSpec where
  shape := if c.mode = .dsv4 then c.kvView.shape.eraseIdx 1 else (c.kvView.shape.eraseIdx 2).eraseIdx 0
  itemsize := c.kvView.itemsize

/-- The length of the axis that a block id indexes. -/
def numViewBlocks : ℕ := if c.mode = .dsv4 then c.kvView.shape.getD 1 0 else c.kvView.shape.getD 2 0

/-- The subviews fill the bytes of a block. -/
theorem computeBlockNbytes_eq : c.computeBlockNbytes = c.kvCount * c.subview.numBytes := by
  unfold computeBlockNbytes kvCount TensorSpec.numBytes subview kvView
  cases hmode : c.mode with
  | gqa =>
    simp [kvCache, hmode]
    ring
  | dsv4 => simp [kvCache, hmode, dsv4BytesPerToken]
  | mla =>
    have hheads : c.numLocalKvHeads = 1 := by simp [numLocalKvHeads, hmode]
    by_cases hfp8 : c.isFp8Kvcache
    · by_cases hraw : c.rawFp8MlaLayout
      · simp [kvCache, hmode, hfp8, hraw, fp8HeadDim]
      · simp [hfp8, hraw]
    · simp [kvCache, hmode, hfp8, hheads]
      ring

end NanoEngine.Disagg.CacheSetup

namespace NanoEngine.L3

open Transition Disagg

/-! ## Paths -/

/-- `{n:016x}` of 64 bits. -/
def hex16 (n : ℕ) : String := String.ofList ((List.range 16).reverse.map fun i => Nat.digitChar (n / 16 ^ i % 16))

/-- `_path`: `block_hash & 0xFFFFFFFFFFFFFFFF` is the hash as an unsigned number. -/
def path (l3Dir : String) (blockHash : Int64) : String := l3Dir ++ "/" ++ hex16 blockHash.toUInt64.toNat ++ ".kv"

theorem digitChar_inj {a b : ℕ} (ha : a < 16) (hb : b < 16) (h : Nat.digitChar a = Nat.digitChar b) : a = b := by
  have hall : ∀ a < 16, ∀ b < 16, Nat.digitChar a = Nat.digitChar b → a = b := by decide
  exact hall a ha b hb h

theorem eq_of_digits {k a b : ℕ} (ha : a < 16 ^ k) (hb : b < 16 ^ k)
    (h : ∀ i < k, a / 16 ^ i % 16 = b / 16 ^ i % 16) :
    a = b := by
  induction k generalizing a b with
  | zero => omega
  | succ k ih =>
    have hlast := h 0 (Nat.succ_pos k)
    have hrest : a / 16 = b / 16 := by
      refine ih (by rw [Nat.pow_succ] at ha; omega) (by rw [Nat.pow_succ] at hb; omega) fun i hi => ?_
      rw [Nat.div_div_eq_div_mul, Nat.div_div_eq_div_mul, ← Nat.pow_succ']
      exact h (i + 1) (Nat.succ_lt_succ hi)
    rw [Nat.pow_zero, Nat.div_one, Nat.div_one] at hlast
    omega

theorem hex16_inj {a b : ℕ} (ha : a < 2 ^ 64) (hb : b < 2 ^ 64) (h : hex16 a = hex16 b) : a = b := by
  have hmap := String.ofList_injective h
  refine eq_of_digits (k := 16) (by omega) (by omega) fun i hi => ?_
  have hdigit := List.map_inj_left.1 hmap i (by simpa using hi)
  exact digitChar_inj (Nat.mod_lt _ (by omega)) (Nat.mod_lt _ (by omega)) hdigit

/-- Every hash has its own file. -/
theorem path_inj (l3Dir : String) {h h' : Int64} (heq : path l3Dir h = path l3Dir h') : h = h' := by
  have hlist := congrArg String.toList heq
  simp only [path, String.toList_append, List.append_assoc, List.append_cancel_left_eq, List.append_cancel_right_eq,
    String.toList_inj] at hlist
  have hnat := hex16_inj h.toUInt64.toNat_lt h'.toUInt64.toNat_lt hlist
  exact Int64.toBitVec.inj (congrArg UInt64.toBitVec (UInt64.toNat_inj.1 hnat))

/-! ## The store -/

inductive L3Error
  /-- `OSError(errno, os.strerror(errno))` -/
  | os (errno : ℕ)
  /-- `"[L3] missing block {block_hash:#x} at {path} — would corrupt KV"` -/
  | missing (blockHash : Int64) (path : String)
  /-- the block id is beyond the cache -/
  | index (blockId : ℕ)
  deriving DecidableEq

/-- How far a write comes, from `os.open` to the result of the ring. -/
inductive WriteOutcome
  | openFails (errno : ℕ)
  | truncateFails (errno : ℕ)
  | registerFails (errno : ℕ)
  /-- `written` bytes reach the file and the ring reports `result`. -/
  | submitted (written : ℕ) (result : ℤ)

/-- A worker's store with the file system and the cache of its device. -/
structure Hf3fsL3Store where
  files : String → Option (List UInt8)
  staging : ℕ → UInt8
  /-- byte `i` of the subview of a block: `gpu kvIdx blockId i` -/
  gpu : ℕ → ℕ → ℕ → UInt8
  bytesStored : ℕ
  nStore : ℕ
  bytesLoaded : ℕ
  nLoad : ℕ
  completed : List (Int64 × List UInt8)

/-- `os.ftruncate`. -/
def ftruncate (content : List UInt8) (n : ℕ) : List UInt8 := content.take n ++ List.replicate (n - content.length) 0

/-- A write at offset `0` that stops after `written` bytes. -/
def overwrite (content bytes : List UInt8) (written : ℕ) : List UInt8 := bytes.take written ++ content.drop written

namespace Hf3fsL3Store

section Calls

variable (c : CacheSetup) (l3Dir : String)

/-- `_subviews`: the offset in the staging buffer and the index of each. -/
def subviews : List (ℕ × ℕ) := (List.range c.kvCount).map fun kvIdx => (kvIdx * c.subview.numBytes, kvIdx)

/-- The block's subviews to the staging buffer. -/
def gather (x : Hf3fsL3Store) (blockId : ℕ) : Hf3fsL3Store :=
  { x with staging := (subviews c).foldl (fun staging v i =>
      if v.1 ≤ i ∧ i < v.1 + c.subview.numBytes then x.gpu v.2 blockId (i - v.1) else staging i) x.staging }

/-- The staging buffer to the block's subviews. -/
def scatter (x : Hf3fsL3Store) (blockId : ℕ) : Hf3fsL3Store :=
  { x with gpu := (subviews c).foldl (fun gpu v kvIdx b i =>
      if kvIdx = v.2 ∧ b = blockId ∧ i < c.subview.numBytes then x.staging (v.1 + i) else gpu kvIdx b i) x.gpu }

/-- The bytes of the staging buffer that are written. -/
def stagingBytes (x : Hf3fsL3Store) : List UInt8 := (List.range c.computeBlockNbytes).map x.staging

/-- A read of the whole block into the staging buffer: a shorter file leaves the rest as it is. -/
def readStaging (x : Hf3fsL3Store) (content : List UInt8) : Hf3fsL3Store :=
  { x with staging := fun i => if i < c.computeBlockNbytes then content[i]?.getD (x.staging i) else x.staging i }

def setFile (x : Hf3fsL3Store) (path : String) (content : List UInt8) : Hf3fsL3Store :=
  { x with files := Function.update x.files path (some content) }

/-- `exists`. -/
def existing (x : Hf3fsL3Store) (hashes : List Int64) : List Int64 :=
  hashes.filter fun h => (x.files (path l3Dir h)).isSome

/-- The body of the loop of `store`. -/
def storeBlock (x : Hf3fsL3Store) (skipExisting : Bool) (blockHash : Int64) (blockId : ℕ) (outcome : WriteOutcome) :
    Except L3Error Unit × Hf3fsL3Store :=
  let path := path l3Dir blockHash
  if skipExisting && (x.files path).isSome then (.ok (), x)
  else if c.numViewBlocks ≤ blockId then (.error (.index blockId), x)
  else
    let x := x.gather c blockId
    let opened := (x.files path).getD []
    match outcome with
    | .openFails errno => (.error (.os errno), x)
    | .truncateFails errno => (.error (.os errno), x.setFile path opened)
    | .registerFails errno => (.error (.os errno), x.setFile path (ftruncate opened c.computeBlockNbytes))
    | .submitted written result =>
      let x := x.setFile path (overwrite (ftruncate opened c.computeBlockNbytes) (x.stagingBytes c) written)
      if result < 0 then (.error (.os result.natAbs), x)
      else
        (.ok (), { x with
          bytesStored := x.bytesStored + c.computeBlockNbytes
          nStore := x.nStore + 1
          completed := (blockHash, x.stagingBytes c) :: x.completed })

/-- `store` from pair `i` on. -/
def storeLoop (skipExisting : Bool) (outcomes : ℕ → WriteOutcome) :
    ℕ → List (Int64 × ℕ) → Hf3fsL3Store → Except L3Error (List Int64) × Hf3fsL3Store
  | _, [], x => (.ok [], x)
  | i, (blockHash, blockId) :: pairs, x =>
    match x.storeBlock c l3Dir skipExisting blockHash blockId (outcomes i) with
    | (.error e, x) => (.error e, x)
    | (.ok (), x) =>
      match storeLoop skipExisting outcomes (i + 1) pairs x with
      | (.error e, x) => (.error e, x)
      | (.ok stored, x) => (.ok (blockHash :: stored), x)

def store (x : Hf3fsL3Store) (pairs : List (Int64 × ℕ)) (skipExisting : Bool) (outcomes : ℕ → WriteOutcome) :
    Except L3Error (List Int64) × Hf3fsL3Store := storeLoop c l3Dir skipExisting outcomes 0 pairs x

/-- The body of the loop of `load`; `fault` is an error of the open or of the ring. -/
def loadBlock (x : Hf3fsL3Store) (blockHash : Int64) (blockId : ℕ) (fault : Option ℕ) :
    Except L3Error Unit × Hf3fsL3Store :=
  let path := path l3Dir blockHash
  match x.files path with
  | none => (.error (.missing blockHash path), x)
  | some content =>
    match fault with
    | some errno => (.error (.os errno), x)
    | none =>
      let x := x.readStaging c content
      if c.numViewBlocks ≤ blockId then (.error (.index blockId), x)
      else
        let x := x.scatter c blockId
        (.ok (), { x with bytesLoaded := x.bytesLoaded + c.computeBlockNbytes, nLoad := x.nLoad + 1 })

/-- `load` from pair `i` on, with the number of blocks. -/
def loadLoop (faults : ℕ → Option ℕ) :
    ℕ → List (Int64 × ℕ) → Hf3fsL3Store → Except L3Error ℕ × Hf3fsL3Store
  | _, [], x => (.ok 0, x)
  | i, (blockHash, blockId) :: pairs, x =>
    match x.loadBlock c l3Dir blockHash blockId (faults i) with
    | (.error e, x) => (.error e, x)
    | (.ok (), x) =>
      match loadLoop faults (i + 1) pairs x with
      | (.error e, x) => (.error e, x)
      | (.ok loaded, x) => (.ok (loaded + 1), x)

def load (x : Hf3fsL3Store) (pairs : List (Int64 × ℕ)) (faults : ℕ → Option ℕ) :
    Except L3Error ℕ × Hf3fsL3Store :=
  loadLoop c l3Dir faults 0 pairs x

end Calls

/-- The bytes of a block, subview by subview. -/
def blockBytes (c : CacheSetup) (x : Hf3fsL3Store) (blockId : ℕ) : List UInt8 :=
  (List.range c.kvCount).flatMap fun kvIdx => (List.range c.subview.numBytes).map (x.gpu kvIdx blockId)

end Hf3fsL3Store

/-! ## Bytes -/

theorem ftruncate_length (content : List UInt8) (n : ℕ) : (ftruncate content n).length = n := by
  simp only [ftruncate, List.length_append, List.length_take, List.length_replicate]
  omega

theorem ftruncate_self {content : List UInt8} {n : ℕ} (h : content.length = n) : ftruncate content n = content := by
  simp [ftruncate, ← h]

theorem overwrite_length {content bytes : List UInt8} (h : content.length = bytes.length) (written : ℕ) :
    (overwrite content bytes written).length = bytes.length := by
  simp only [overwrite, List.length_append, List.length_take, List.length_drop]
  omega

/-- The file holds the block if what is not written is that of the block. -/
theorem overwrite_eq_bytes {content bytes : List UInt8} {written : ℕ} :
    overwrite content bytes written = bytes ↔ content.drop written = bytes.drop written := by
  conv_lhs => rhs; rw [← List.take_append_drop written bytes]
  exact Iff.of_eq (List.append_cancel_left_eq ..)

/-- The file stays as it was if what is written was there. -/
theorem overwrite_eq_content {content bytes : List UInt8} {written : ℕ} :
    overwrite content bytes written = content ↔ bytes.take written = content.take written := by
  conv_lhs => rhs; rw [← List.take_append_drop written content]
  exact Iff.of_eq (List.append_cancel_right_eq ..)

/-- A range of `k * n` numbers, `n` at a time. -/
theorem map_range_mul {β : Type} (f : ℕ → β) (k n : ℕ) :
    (List.range (k * n)).map f = (List.range k).flatMap fun d => (List.range n).map fun i => f (d * n + i) := by
  induction k with
  | zero => simp
  | succ k ih =>
    rw [Nat.succ_mul, List.range_add, List.map_append, ih, List.range_succ, List.flatMap_append, List.flatMap_singleton,
      List.map_map]
    rfl

namespace Hf3fsL3Store

variable {c : CacheSetup} {l3Dir : String} {x : Hf3fsL3Store}

@[simp] theorem gather_files (blockId : ℕ) : (x.gather c blockId).files = x.files := rfl
@[simp] theorem gather_completed (blockId : ℕ) : (x.gather c blockId).completed = x.completed := rfl

theorem gather_staging {blockId d i : ℕ} (hd : d < c.kvCount) (hi : i < c.subview.numBytes) :
    (x.gather c blockId).staging (d * c.subview.numBytes + i) = x.gpu d blockId i := by
  unfold gather subviews
  dsimp only
  rw [List.foldl_map]
  generalize c.kvCount = count at hd ⊢
  induction count with
  | zero => omega
  | succ k ih =>
    rw [List.range_succ, List.foldl_append, List.foldl_cons, List.foldl_nil]
    rcases Nat.lt_succ_iff_lt_or_eq.1 hd with hlt | rfl
    · -- the last subview lies behind
      have hle : (d + 1) * c.subview.numBytes ≤ k * c.subview.numBytes := Nat.mul_le_mul_right _ hlt
      rw [Nat.succ_mul] at hle
      rw [if_neg (by omega)]
      exact ih hlt
    · rw [if_pos ⟨Nat.le_add_right .., by omega⟩, Nat.add_sub_cancel_left]

theorem scatter_gpu {blockId d i : ℕ} (hd : d < c.kvCount) (hi : i < c.subview.numBytes) :
    (x.scatter c blockId).gpu d blockId i = x.staging (d * c.subview.numBytes + i) := by
  unfold scatter subviews
  dsimp only
  rw [List.foldl_map]
  generalize c.kvCount = count at hd ⊢
  induction count with
  | zero => omega
  | succ k ih =>
    rw [List.range_succ, List.foldl_append, List.foldl_cons, List.foldl_nil]
    rcases Nat.lt_succ_iff_lt_or_eq.1 hd with hlt | rfl
    · rw [if_neg (by omega)]
      exact ih hlt
    · rw [if_pos ⟨rfl, rfl, hi⟩]

theorem stagingBytes_gather (blockId : ℕ) : (x.gather c blockId).stagingBytes c = x.blockBytes c blockId := by
  unfold stagingBytes blockBytes
  rw [c.computeBlockNbytes_eq, map_range_mul]
  refine List.flatMap_congr fun d hd => List.map_congr_left fun i hi => ?_
  exact gather_staging (List.mem_range.1 hd) (List.mem_range.1 hi)

theorem blockBytes_length (blockId : ℕ) : (x.blockBytes c blockId).length = c.computeBlockNbytes := by
  rw [← stagingBytes_gather, stagingBytes, List.length_map, List.length_range]

/-- A load of a whole file puts its bytes into the block. -/
theorem load_whole {blockHash : Int64} {blockId : ℕ} {content : List UInt8}
    (hfile : x.files (path l3Dir blockHash) = some content) (hlen : content.length = c.computeBlockNbytes)
    (hblock : blockId < c.numViewBlocks) :
    ∃ x', x.load c l3Dir [(blockHash, blockId)] (fun _ => none) = (.ok 1, x') ∧
      x'.blockBytes c blockId = content := by
  refine ⟨_, by simp [load, loadLoop, loadBlock, hfile, Nat.not_le.2 hblock]; rfl, ?_⟩
  show ((x.readStaging c content).scatter c blockId).blockBytes c blockId = content
  have hbytes : ((x.readStaging c content).scatter c blockId).blockBytes c blockId =
      (List.range (c.kvCount * c.subview.numBytes)).map (x.readStaging c content).staging := by
    rw [map_range_mul]
    refine List.flatMap_congr fun d hd => List.map_congr_left fun i hi => ?_
    exact scatter_gpu (List.mem_range.1 hd) (List.mem_range.1 hi)
  rw [hbytes, ← c.computeBlockNbytes_eq]
  refine List.ext_getElem (by simp [hlen]) fun i hi hi' => ?_
  have hlt : i < c.computeBlockNbytes := by simpa using hi
  simp [readStaging, hlt, hi']

theorem load_unique {blockHash : Int64} {blockId : ℕ} {content : List UInt8} {loaded : ℕ} {x' : Hf3fsL3Store}
    (hload : x.load c l3Dir [(blockHash, blockId)] (fun _ => none) = (.ok loaded, x'))
    (hfile : x.files (path l3Dir blockHash) = some content) (hlen : content.length = c.computeBlockNbytes)
    (hblock : blockId < c.numViewBlocks) :
    x'.blockBytes c blockId = content := by
  obtain ⟨x'', hload', hcontent⟩ := load_whole hfile hlen hblock
  rw [hload] at hload'
  cases hload'
  exact hcontent

end Hf3fsL3Store

/-! ## Runs -/

inductive StoreOp
  | store (pairs : List (Int64 × ℕ)) (skipExisting : Bool) (outcomes : ℕ → WriteOutcome)
  | exists (hashes : List Int64)
  | load (pairs : List (Int64 × ℕ)) (faults : ℕ → Option ℕ)
  /-- The device writes its cache between the calls. -/
  | compute (gpu : ℕ → ℕ → ℕ → UInt8)

/-- The calls on one store; `earlier` are the blocks that completed stores left in its directory before. -/
def storeSystem (c : CacheSetup) (l3Dir : String) (earlier : List (Int64 × List UInt8)) :
    System Hf3fsL3Store StoreOp where
  initial x := x.completed = earlier ∧ (∀ e ∈ earlier, e.2.length = c.computeBlockNbytes) ∧
    ∀ h, x.files (path l3Dir h) = earlier.lookup h
  next x
    | .store pairs skipExisting outcomes => some (x.store c l3Dir pairs skipExisting outcomes).2
    | .exists _ => some x
    | .load pairs faults => some (x.load c l3Dir pairs faults).2
    | .compute gpu => some { x with gpu }

/-- The file of the block ends as it was, or as the block in a store that comes to its end: `old` is the file before and
`bytes` are those of the source. -/
def WriteOutcome.harmless (old : Option (List UInt8)) (bytes : List UInt8) : WriteOutcome → Bool
  | .openFails _ => true
  | .truncateFails _ => old.isSome
  | .registerFails _ => old.isSome
  | .submitted written result =>
    (decide (0 ≤ result) && (ftruncate (old.getD []) bytes.length).drop written == bytes.drop written) ||
      old.any fun old => bytes.take written == old.take written

/-- No write of `store`, from pair `i` on, leaves a part of a block. -/
def wholeLoop (c : CacheSetup) (l3Dir : String) (skipExisting : Bool) (outcomes : ℕ → WriteOutcome) :
    ℕ → List (Int64 × ℕ) → Hf3fsL3Store → Bool
  | _, [], _ => true
  | i, (blockHash, blockId) :: pairs, x =>
    (skipExisting && (x.files (path l3Dir blockHash)).isSome || decide (c.numViewBlocks ≤ blockId) ||
      (outcomes i).harmless (x.files (path l3Dir blockHash)) (x.blockBytes c blockId)) &&
    match x.storeBlock c l3Dir skipExisting blockHash blockId (outcomes i) with
    | (.error _, _) => true
    | (.ok (), x) => wholeLoop c l3Dir skipExisting outcomes (i + 1) pairs x

/-- Every write is whole or leaves the file as it was. -/
def writesWhole (c : CacheSetup) (l3Dir : String) (x : Hf3fsL3Store) : StoreOp → Bool
  | .store pairs skipExisting outcomes => wholeLoop c l3Dir skipExisting outcomes 0 pairs x
  | _ => true

namespace Hf3fsL3Store

variable {c : CacheSetup} {l3Dir : String} {x : Hf3fsL3Store}

/-- Every file of a block is that of a store that came to its end, and every such store has a file. -/
structure Intact (c : CacheSetup) (l3Dir : String) (x : Hf3fsL3Store) : Prop where
  whole : ∀ h content, x.files (path l3Dir h) = some content →
    content.length = c.computeBlockNbytes ∧ (h, content) ∈ x.completed
  present : ∀ e ∈ x.completed, (x.files (path l3Dir e.1)).isSome

/-- What `exists` reports is loaded as the bytes of a block whose store came to its end. -/
def Complete (c : CacheSetup) (l3Dir : String) (x : Hf3fsL3Store) : Prop :=
  ∀ hashes, ∀ h ∈ x.existing l3Dir hashes, ∀ b < c.numViewBlocks, ∃ bytes, (h, bytes) ∈ x.completed ∧
    ∃ x', x.load c l3Dir [(h, b)] (fun _ => none) = (.ok 1, x') ∧ x'.blockBytes c b = bytes

theorem Intact.complete (h : x.Intact c l3Dir) : x.Complete c l3Dir := by
  intro hashes hash hmem b hb
  obtain ⟨content, hfile⟩ := Option.isSome_iff_exists.1 (List.mem_filter.1 hmem).2
  obtain ⟨hlen, hdone⟩ := h.whole hash content hfile
  exact ⟨content, hdone, load_whole hfile hlen hb⟩

/-! ### One block -/

theorem setFile_same (p : String) (content : List UInt8) : (x.setFile p content).files p = some content :=
  Function.update_self ..

theorem setFile_other {p q : String} (h : q ≠ p) (content : List UInt8) : (x.setFile p content).files q = x.files q :=
  Function.update_of_ne h ..

@[simp] theorem setFile_stagingBytes (p : String) (content : List UInt8) :
    (x.setFile p content).stagingBytes c = x.stagingBytes c := rfl

/-- A file that ends as it was. -/
theorem setFile_eq {p : String} {content : List UInt8} (h : x.files p = some content) : x.setFile p content = x := by
  rw [setFile, ← h, Function.update_eq_self]

/-- The file of a block is replaced and the history goes on. -/
theorem Intact.write (h : x.Intact c l3Dir) {x' : Hf3fsL3Store} {hash : Int64} {content : List UInt8}
    (hfiles : x'.files = (x.setFile (path l3Dir hash) content).files) (hold : x.completed ⊆ x'.completed)
    (hnew : ∀ e ∈ x'.completed, e ∈ x.completed ∨ e.1 = hash) (hlen : content.length = c.computeBlockNbytes)
    (hdone : (hash, content) ∈ x'.completed) : x'.Intact c l3Dir where
  whole hash' content' hfile := by
    rw [hfiles] at hfile
    by_cases hsame : hash' = hash
    · subst hsame
      rw [setFile_same] at hfile
      cases hfile
      exact ⟨hlen, hdone⟩
    · rw [setFile_other fun he => hsame (path_inj l3Dir he)] at hfile
      obtain ⟨hlen', hdone'⟩ := h.whole hash' content' hfile
      exact ⟨hlen', hold hdone'⟩
  present e he := by
    rw [hfiles]
    by_cases hsame : e.1 = hash
    · rw [hsame, setFile_same]
      rfl
    · rw [setFile_other fun he => hsame (path_inj l3Dir he)]
      exact h.present e ((hnew e he).resolve_right hsame)

theorem mem_new {l : List (Int64 × List UInt8)} {hash : Int64} {bytes : List UInt8} (e : Int64 × List UInt8)
    (he : e ∈ (hash, bytes) :: l) : e ∈ l ∨ e.1 = hash := by
  rcases List.mem_cons.1 he with rfl | he
  · exact .inr rfl
  · exact .inl he

theorem Intact.storeBlock (h : x.Intact c l3Dir) {skipExisting : Bool} {hash : Int64} {blockId : ℕ}
    {outcome : WriteOutcome}
    (hwhole : (skipExisting && (x.files (path l3Dir hash)).isSome || decide (c.numViewBlocks ≤ blockId) ||
      outcome.harmless (x.files (path l3Dir hash)) (x.blockBytes c blockId)) = true) :
    (x.storeBlock c l3Dir skipExisting hash blockId outcome).2.Intact c l3Dir := by
  unfold Hf3fsL3Store.storeBlock
  dsimp only
  split
  case isTrue => exact h
  case isFalse hskip =>
    split
    case isTrue => exact h
    case isFalse hblock =>
      have hharmless : outcome.harmless (x.files (path l3Dir hash)) (x.blockBytes c blockId) = true := by
        simpa [hskip, hblock] using hwhole
      have hgather : (x.gather c blockId).Intact c l3Dir := ⟨h.whole, h.present⟩
      have hbytes := blockBytes_length (c := c) (x := x) blockId
      -- each outcome leaves the file as it was, whole, or cut; the last is what `harmless` excludes
      cases outcome with
      | openFails errno => exact hgather
      | truncateFails errno =>
        obtain ⟨old, hold⟩ := Option.isSome_iff_exists.1 hharmless
        dsimp only
        rw [gather_files, hold, Option.getD_some, setFile_eq (x := x.gather c blockId) hold]
        exact hgather
      | registerFails errno =>
        obtain ⟨old, hold⟩ := Option.isSome_iff_exists.1 hharmless
        dsimp only
        rw [gather_files, hold, Option.getD_some, ftruncate_self (h.whole hash old hold).1,
          setFile_eq (x := x.gather c blockId) hold]
        exact hgather
      | submitted written result =>
        dsimp only
        rw [gather_files, setFile_stagingBytes, stagingBytes_gather]
        simp only [WriteOutcome.harmless, Bool.or_eq_true, Bool.and_eq_true, decide_eq_true_eq, beq_iff_eq,
          Option.any_eq_true, hbytes] at hharmless
        rcases hharmless with ⟨hresult, hrest⟩ | ⟨old, hold, hsame⟩
        · -- the file holds the block
          rw [if_neg (by omega), overwrite_eq_bytes.2 hrest]
          refine h.write ?_ (List.subset_cons_self ..) mem_new hbytes List.mem_cons_self
          rfl
        · -- the file is the one before
          obtain ⟨hlen, hdone⟩ := h.whole hash old hold
          rw [hold, Option.getD_some, ftruncate_self hlen, overwrite_eq_content.2 hsame,
            setFile_eq (x := x.gather c blockId) hold]
          split
          case isTrue => exact hgather
          case isFalse =>
            refine h.write ?_ (List.subset_cons_self ..) mem_new hlen (List.mem_cons_of_mem _ hdone)
            rw [setFile_eq hold]
            rfl

/-! ### One call -/

theorem Intact.storeLoop (h : x.Intact c l3Dir) {skipExisting : Bool} {outcomes : ℕ → WriteOutcome} {i : ℕ}
    {pairs : List (Int64 × ℕ)} (hwhole : wholeLoop c l3Dir skipExisting outcomes i pairs x = true) :
    (Hf3fsL3Store.storeLoop c l3Dir skipExisting outcomes i pairs x).2.Intact c l3Dir := by
  induction pairs generalizing i x with
  | nil => exact h
  | cons pair pairs ih =>
    obtain ⟨hash, blockId⟩ := pair
    rw [wholeLoop, Bool.and_eq_true] at hwhole
    obtain ⟨hhere, hrest⟩ := hwhole
    have hblock := h.storeBlock hhere
    rw [Hf3fsL3Store.storeLoop]
    cases hstep : x.storeBlock c l3Dir skipExisting hash blockId (outcomes i) with
    | mk r x₁ =>
      rw [hstep] at hblock hrest
      cases r with
      | error e => exact hblock
      | ok u =>
        have hloop := ih hblock hrest
        dsimp only
        split
        case h_1 e x₂ hx₂ =>
          rw [hx₂] at hloop
          exact hloop
        case h_2 stored x₂ hx₂ =>
          rw [hx₂] at hloop
          exact hloop

theorem loadBlock_files (hash : Int64) (blockId : ℕ) (fault : Option ℕ) :
    (x.loadBlock c l3Dir hash blockId fault).2.files = x.files ∧
      (x.loadBlock c l3Dir hash blockId fault).2.completed = x.completed := by
  unfold loadBlock
  dsimp only
  split
  case h_1 => exact ⟨rfl, rfl⟩
  case h_2 =>
    split
    case h_1 => exact ⟨rfl, rfl⟩
    case h_2 => split <;> exact ⟨rfl, rfl⟩

/-- `load` changes no file. -/
theorem loadLoop_files (faults : ℕ → Option ℕ) (i : ℕ) (pairs : List (Int64 × ℕ)) (x : Hf3fsL3Store) :
    (loadLoop c l3Dir faults i pairs x).2.files = x.files ∧
      (loadLoop c l3Dir faults i pairs x).2.completed = x.completed := by
  induction pairs generalizing i x with
  | nil => exact ⟨rfl, rfl⟩
  | cons pair pairs ih =>
    obtain ⟨hash, blockId⟩ := pair
    have hblock : (x.loadBlock c l3Dir hash blockId (faults i)).2.files = x.files ∧
        (x.loadBlock c l3Dir hash blockId (faults i)).2.completed = x.completed :=
          loadBlock_files hash blockId (faults i)
    rw [loadLoop]
    cases hstep : x.loadBlock c l3Dir hash blockId (faults i) with
    | mk r x₁ =>
      rw [hstep] at hblock
      cases r with
      | error e => exact hblock
      | ok u =>
        have hloop := ih (i + 1) x₁
        rw [hblock.1, hblock.2] at hloop
        dsimp only
        split
        case h_1 e x₂ hx₂ =>
          rw [hx₂] at hloop
          exact hloop
        case h_2 loaded x₂ hx₂ =>
          rw [hx₂] at hloop
          exact hloop

/-- A file once there stays, whatever the write does. -/
theorem setFile_isSome {p : String} (h : (x.files p).isSome) (q : String) (content : List UInt8) :
    ((x.setFile q content).files p).isSome := by
  by_cases hpq : p = q
  · subst hpq
    rw [setFile_same]
    rfl
  · rw [setFile_other hpq]
    exact h

theorem storeBlock_isSome {p : String} (h : (x.files p).isSome) (skipExisting : Bool) (hash : Int64) (blockId : ℕ)
    (outcome : WriteOutcome) : ((x.storeBlock c l3Dir skipExisting hash blockId outcome).2.files p).isSome := by
  unfold Hf3fsL3Store.storeBlock
  dsimp only
  split
  case isTrue => exact h
  case isFalse =>
    split
    case isTrue => exact h
    case isFalse =>
      cases outcome with
      | openFails errno => exact h
      | truncateFails errno => exact setFile_isSome (x := x.gather c blockId) h _ _
      | registerFails errno => exact setFile_isSome (x := x.gather c blockId) h _ _
      | submitted written result =>
        dsimp only
        split
        case isTrue => exact setFile_isSome (x := x.gather c blockId) h _ _
        case isFalse => exact setFile_isSome (x := x.gather c blockId) h _ _

/-- A block whose store comes to its end has a file. -/
theorem storeBlock_ok {x' : Hf3fsL3Store} {skipExisting : Bool} {hash : Int64} {blockId : ℕ} {outcome : WriteOutcome}
    (h : x.storeBlock c l3Dir skipExisting hash blockId outcome = (.ok (), x')) :
    (x'.files (path l3Dir hash)).isSome := by
  unfold Hf3fsL3Store.storeBlock at h
  dsimp only at h
  split at h
  case isTrue hskip =>
    cases h
    exact (Bool.and_eq_true_iff.1 hskip).2
  case isFalse =>
    split at h
    case isTrue => cases h
    case isFalse =>
      cases outcome with
      | openFails errno => cases h
      | truncateFails errno => cases h
      | registerFails errno => cases h
      | submitted written result =>
        dsimp only at h
        split at h
        case isTrue => cases h
        case isFalse =>
          cases h
          exact congrArg Option.isSome (setFile_same (x := x.gather c blockId) _ _)

theorem storeLoop_isSome {p : String} (skipExisting : Bool) (outcomes : ℕ → WriteOutcome) (i : ℕ)
    (pairs : List (Int64 × ℕ)) (h : (x.files p).isSome) :
    ((Hf3fsL3Store.storeLoop c l3Dir skipExisting outcomes i pairs x).2.files p).isSome := by
  induction pairs generalizing i x with
  | nil => exact h
  | cons pair pairs ih =>
    obtain ⟨hash, blockId⟩ := pair
    have hblock : ((x.storeBlock c l3Dir skipExisting hash blockId (outcomes i)).2.files p).isSome :=
      storeBlock_isSome h skipExisting hash blockId (outcomes i)
    rw [Hf3fsL3Store.storeLoop]
    cases hstep : x.storeBlock c l3Dir skipExisting hash blockId (outcomes i) with
    | mk r x₁ =>
      rw [hstep] at hblock
      cases r with
      | error e => exact hblock
      | ok u =>
        have hloop := ih (i + 1) hblock
        dsimp only
        split
        case h_1 e x₂ hx₂ =>
          rw [hx₂] at hloop
          exact hloop
        case h_2 stored x₂ hx₂ =>
          rw [hx₂] at hloop
          exact hloop

theorem store_one (skipExisting : Bool) (hash : Int64) (blockId : ℕ) (outcomes : ℕ → WriteOutcome) :
    (x.store c l3Dir [(hash, blockId)] skipExisting outcomes).2 =
      (x.storeBlock c l3Dir skipExisting hash blockId (outcomes 0)).2 := by
  rw [Hf3fsL3Store.store, Hf3fsL3Store.storeLoop]
  cases x.storeBlock c l3Dir skipExisting hash blockId (outcomes 0) with
  | mk r x₁ => cases r <;> rfl

/-- `exists` reports the hashes that `store` returns. -/
theorem storeLoop_stored {x' : Hf3fsL3Store} {skipExisting : Bool} {outcomes : ℕ → WriteOutcome} {i : ℕ}
    {pairs : List (Int64 × ℕ)} {stored : List Int64}
    (h : Hf3fsL3Store.storeLoop c l3Dir skipExisting outcomes i pairs x = (.ok stored, x')) :
    ∀ hash ∈ stored, (x'.files (path l3Dir hash)).isSome := by
  induction pairs generalizing i x stored with
  | nil =>
    cases h
    simp
  | cons pair pairs ih =>
    obtain ⟨hash, blockId⟩ := pair
    rw [Hf3fsL3Store.storeLoop] at h
    cases hstep : x.storeBlock c l3Dir skipExisting hash blockId (outcomes i) with
    | mk r x₁ =>
      rw [hstep] at h
      cases r with
      | error e => cases h
      | ok u =>
        have hhere := @storeLoop_isSome c l3Dir _ _ skipExisting outcomes (i + 1) pairs (storeBlock_ok hstep)
        cases hloop : Hf3fsL3Store.storeLoop c l3Dir skipExisting outcomes (i + 1) pairs x₁ with
        | mk r x₂ =>
          simp only [hloop] at h hhere
          cases r with
          | error e => cases h
          | ok rest =>
            cases h
            exact List.forall_mem_cons.2 ⟨hhere, ih hloop⟩

/-- A store of a new block that leaves a part of it: `exists` reports what no store completed. -/
theorem Intact.not_complete (h : x.Intact c l3Dir) {skipExisting : Bool} {hash : Int64} {blockId : ℕ}
    {outcome : WriteOutcome} (hnew : x.files (path l3Dir hash) = none) (hblock : blockId < c.numViewBlocks)
    (hharm : outcome.harmless none (x.blockBytes c blockId) = false) :
    ¬(x.storeBlock c l3Dir skipExisting hash blockId outcome).2.Complete c l3Dir := by
  have hnone : ∀ bytes, (hash, bytes) ∉ x.completed := by
    intro bytes hmem
    have hsome := h.present _ hmem
    rw [hnew] at hsome
    cases hsome
  -- a file whose history does not name it
  have hbad : ∀ (x' : Hf3fsL3Store) (content : List UInt8), x'.files = (x.setFile (path l3Dir hash) content).files →
      x'.completed = x.completed → ¬x'.Complete c l3Dir := by
    intro x' content hfiles hcompleted hcomplete
    have hmem : hash ∈ x'.existing l3Dir [hash] := by simp [existing, hfiles, setFile_same]
    obtain ⟨bytes, hdone, -⟩ := hcomplete [hash] hash hmem blockId hblock
    exact hnone bytes (hcompleted ▸ hdone)
  have hbytes := blockBytes_length (c := c) (x := x) blockId
  unfold Hf3fsL3Store.storeBlock
  dsimp only
  rw [gather_files, hnew, Option.isSome_none, Bool.and_false, if_neg Bool.false_ne_true, if_neg (Nat.not_le.2 hblock)]
  cases outcome with
  | openFails errno => cases hharm
  | truncateFails errno => exact hbad _ _ rfl rfl
  | registerFails errno => exact hbad _ _ rfl rfl
  | submitted written result =>
    dsimp only
    rw [setFile_stagingBytes, stagingBytes_gather]
    split
    case isTrue => exact hbad _ _ rfl rfl
    case isFalse hresult =>
      intro hcomplete
      have hlen : (ftruncate [] c.computeBlockNbytes).length = (x.blockBytes c blockId).length := by
        rw [ftruncate_length, hbytes]
      have hfile := setFile_same (x := x.gather c blockId) (path l3Dir hash)
        (overwrite (ftruncate [] c.computeBlockNbytes) (x.blockBytes c blockId) written)
      obtain ⟨bytes, hdone, x', hload, hcontent⟩ := hcomplete [hash] hash
        (List.mem_filter.2 ⟨List.mem_singleton_self _, Option.isSome_of_eq_some hfile⟩) blockId hblock
      -- the only store of the hash is this one
      have hsrc : bytes = x.blockBytes c blockId := by
        rcases List.mem_cons.1 hdone with he | he
        · cases he
          rfl
        · exact absurd he (hnone bytes)
      have hsame : overwrite (ftruncate [] c.computeBlockNbytes) (x.blockBytes c blockId) written =
          x.blockBytes c blockId := by
        have hlen := (overwrite_length hlen written).trans hbytes
        exact (load_unique hload hfile hlen hblock).symm.trans (hcontent.trans hsrc)
      have hrest := overwrite_eq_bytes.1 hsame
      simp [WriteOutcome.harmless, hbytes, hrest, Int.not_lt.1 hresult] at hharm

end Hf3fsL3Store

section Main

variable {c : CacheSetup} {l3Dir : String} {earlier : List (Int64 × List UInt8)}

theorem intact_invariant :
    Invariant (storeSystem c l3Dir earlier) (writesWhole c l3Dir) (Hf3fsL3Store.Intact c l3Dir) where
  initial x hx := by
    obtain ⟨hcompleted, hlen, hfiles⟩ := hx
    refine ⟨fun h content hfile => ?_, fun e he => ?_⟩
    · rw [hfiles] at hfile
      obtain ⟨l₁, l₂, rfl, -⟩ := List.lookup_eq_some_iff.1 hfile
      have hmem : (h, content) ∈ l₁ ++ (h, content) :: l₂ := by simp
      exact ⟨hlen _ hmem, hcompleted ▸ hmem⟩
    · rw [hcompleted] at he
      rw [hfiles, List.lookup_isSome_iff]
      exact ⟨e, he, beq_self_eq_true e.1⟩
  next x op x' hI hG hn := by
    cases op with
    | store pairs skipExisting outcomes =>
      cases hn
      exact hI.storeLoop hG
    | «exists» hashes =>
      cases hn
      exact hI
    | load pairs faults =>
      cases hn
      obtain ⟨hfiles, hcompleted⟩ := @Hf3fsL3Store.loadLoop_files c l3Dir faults 0 pairs x
      refine ⟨fun h content hfile => ?_, fun e he => ?_⟩
      · rw [Hf3fsL3Store.load, hfiles] at hfile
        rw [Hf3fsL3Store.load, hcompleted]
        exact hI.whole h content hfile
      · rw [Hf3fsL3Store.load, hcompleted] at he
        rw [Hf3fsL3Store.load, hfiles]
        exact hI.present e he
    | compute gpu =>
      cases hn
      exact ⟨hI.whole, hI.present⟩

/-- **What is reported is complete** along a run whose writes are whole or leave the file as it was; `exists` reports
what `store` returns; and a store of a block that is not there yet keeps this exactly when its write is harmless. -/
theorem present_complete {x : Hf3fsL3Store} (hx : Reachable (storeSystem c l3Dir earlier) (writesWhole c l3Dir) x) :
    x.Complete c l3Dir ∧
      (∀ pairs skipExisting outcomes stored x', x.store c l3Dir pairs skipExisting outcomes = (.ok stored, x') →
        x'.existing l3Dir stored = stored) ∧
      ∀ hash blockId skipExisting outcome, x.files (path l3Dir hash) = none → blockId < c.numViewBlocks →
        ((x.storeBlock c l3Dir skipExisting hash blockId outcome).2.Complete c l3Dir ↔
          outcome.harmless none (x.blockBytes c blockId) = true) := by
  have hI := intact_invariant.holds hx
  refine ⟨hI.complete, fun pairs skipExisting outcomes stored x' hstore => ?_,
    fun hash blockId skipExisting outcome hnew hblock => ⟨fun hcomplete => ?_, fun hharmless => ?_⟩⟩
  · exact List.filter_eq_self.2 (Hf3fsL3Store.storeLoop_stored hstore)
  · by_contra hharm
    exact hI.not_complete hnew hblock (by simpa using hharm) hcomplete
  · exact (hI.storeBlock (by simp [hnew, hharmless])).complete

/-- One layer of one head in one block of two tokens. -/
def smallSetup : CacheSetup where
  mode := .gqa
  numKvHeads := 1
  headDim := 1
  blockSize := 2
  attentionTp := 1
  dtypeItemsize := 1
  kvLoraRank := 0
  qkRopeHeadDim := 0
  isFp8Kvcache := false
  rawFp8MlaLayout := false
  hasIndexer := false
  indexHeadDim := 0
  gdn := none
  numHiddenLayers := 1
  numGdnLayers := 0
  compressRatios := []
  modelCompressRatios := []
  numLocalKvcacheBlocks := 1
  maxNumSeqs := 1
  gdnStateCacheSlots := 0
  numSpeculativeTokens := 0
  maxModelLen := 2
  poolPagesRatio4 := 0
  poolPagesRatio128 := 0
  stage := List.Subset.refl _

/-- An empty directory, and a cache that holds `7` everywhere. -/
def freshStore : Hf3fsL3Store := ⟨fun _ => none, fun _ => 0, fun _ _ _ => 7, 0, 0, 0, 0, []⟩

/-- A store whose write is whole. -/
theorem present_complete_small : ∃ x, Reachable (storeSystem smallSetup "l3" []) (writesWhole smallSetup "l3") x ∧
    x.completed = [(5, [7, 7, 7, 7])] ∧ x.Complete smallSetup "l3" := by
  obtain ⟨x, hx, hdone⟩ := Reachable.exists_of_run (T := storeSystem smallSetup "l3" []) (G :=
    writesWhole smallSetup "l3")
    (P := fun x => x.completed == [(5, [7, 7, 7, 7])]) (s := freshStore)
    [.store [(5, 0)] true fun _ => .submitted 4 4] ⟨rfl, by simp, fun _ => rfl⟩ (by decide)
  exact ⟨x, hx, by simpa using hdone, (present_complete hx).1⟩

/-- The write fails with `EIO` before any byte: the file stays, `exists` reports it, and no store completed it. -/
theorem not_complete : Reachable (storeSystem smallSetup "l3" []) always
      (freshStore.store smallSetup "l3" [(5, 0)] true fun _ => .submitted 0 (-5)).2 ∧
    (freshStore.store smallSetup "l3" [(5, 0)] true fun _ => .submitted 0 (-5)).1 = .error (.os 5) ∧
    ¬(freshStore.store smallSetup "l3" [(5, 0)] true fun _ => .submitted 0 (-5)).2.Complete smallSetup "l3" := by
  have hinitial : (storeSystem smallSetup "l3" []).initial freshStore := ⟨rfl, by simp, fun _ => rfl⟩
  have hI : freshStore.Intact smallSetup "l3" := intact_invariant.initial _ hinitial
  refine ⟨.next (a := .store [(5, 0)] true fun _ => .submitted 0 (-5)) (.initial hinitial) rfl rfl, by decide, ?_⟩
  rw [Hf3fsL3Store.store_one]
  exact hI.not_complete rfl (by decide) (by decide)

end Main

end NanoEngine.L3
