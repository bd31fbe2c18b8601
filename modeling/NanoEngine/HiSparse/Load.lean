import Mathlib.Data.Fintype.Basic
import NanoEngine.Lib.Probing
import NanoEngine.Lib.Transition

/-!
# NanoEngine.HiSparse.Load — the selected tokens of a batch come to the hot tier

`load_mla_slot_kernel` of `sgl_kernel/hisparse/hisparse.cuh`.  One launch has a CUDA block for every row and every entry
of the row's top-k; the blocks share the hash table of the request, the residency flags and the hot cache.

* `launchEpoch`, `pendingWord`, `wordEpoch`, `wordKey`: the words of the hash table.
* `LoadArgs`: the arguments of a launch, `LoadState`: the memory that it works on and where every block is.
* `loadSystem`: the blocks in any order of their steps; a step has one access to what the blocks share.
* `StepCase`: what one step can do.
-/

namespace NanoEngine.HiSparse

open Transition

/-! ### Words of the hash table -/

/-- The cast of a C integer to `uint32_t`. -/
def uint32 (x : ℤ) : ℕ := (x % 2 ^ 32).toNat

/-- The epoch of a launch, packed from the sequence length, the layer and the phase; never zero. -/
def launchEpoch (seqLen : ℤ) (layerId phaseId : ℕ) : ℕ :=
  let rawEpoch := (uint32 seqLen <<< 10) % 2 ^ 32 ||| ((layerId &&& 0x7f) <<< 3) ||| (phaseId &&& 0x7)
  if rawEpoch &&& 0x7fffffff = 0 then 1 else rawEpoch &&& 0x7fffffff

/-- Key and epoch without the ready bit. -/
def pendingWord (key epoch : ℕ) : ℕ := (key <<< 32) ||| (epoch <<< 1)

/-- The epoch of a hash word: the bits above the ready flag. -/
def wordEpoch (old : ℕ) : ℕ := (old >>> 1) &&& 0x7fffffff

/-- The key of a hash word: its upper half. -/
def wordKey (old : ℕ) : ℕ := old >>> 32

/-- The ready flag of a hash word: its lowest bit. -/
def wordReady (word : ℕ) : Bool := word &&& 1 != 0

theorem and_mask31 (n : ℕ) : n &&& 0x7fffffff = n % 2 ^ 31 := Nat.and_two_pow_sub_one_eq_mod n 31

theorem launchEpoch_lt (seqLen : ℤ) (layerId phaseId : ℕ) : launchEpoch seqLen layerId phaseId < 2 ^ 31 := by
  unfold launchEpoch
  dsimp only
  split
  · decide
  · rw [and_mask31]
    exact Nat.mod_lt _ (by decide)

theorem launchEpoch_pos (seqLen : ℤ) (layerId phaseId : ℕ) : 0 < launchEpoch seqLen layerId phaseId := by
  unfold launchEpoch
  dsimp only
  split
  case isTrue => decide
  case isFalse hne => exact Nat.pos_of_ne_zero hne

section Words

variable {key epoch : ℕ}

theorem pendingWord_eq (hepoch : epoch < 2 ^ 31) : pendingWord key epoch = key * 2 ^ 32 + epoch * 2 := by
  have hlt : epoch <<< 1 < 2 ^ 32 := by
    rw [Nat.shiftLeft_eq]
    omega
  rw [pendingWord, ← Nat.shiftLeft_add_eq_or_of_lt hlt, Nat.shiftLeft_eq, Nat.shiftLeft_eq, pow_one]

/-- The word a block installs carries its epoch … -/
theorem wordEpoch_pendingWord (hepoch : epoch < 2 ^ 31) : wordEpoch (pendingWord key epoch) = epoch := by
  rw [wordEpoch, and_mask31, pendingWord_eq hepoch, Nat.shiftRight_eq_div_pow]
  omega

/-- … its key … -/
theorem wordKey_pendingWord (hepoch : epoch < 2 ^ 31) : wordKey (pendingWord key epoch) = key := by
  rw [wordKey, pendingWord_eq hepoch, Nat.shiftRight_eq_div_pow]
  omega

/-- … and is not ready. -/
theorem wordReady_pendingWord (hepoch : epoch < 2 ^ 31) : wordReady (pendingWord key epoch) = false := by
  rw [wordReady, pendingWord_eq hepoch, Nat.and_one_is_mod, bne_eq_false_iff_eq]
  omega

/-! `atomicOr(cell, 1)` -/

theorem wordEpoch_or_one (word : ℕ) : wordEpoch (word ||| 1) = wordEpoch word := by
  rw [wordEpoch, wordEpoch, Nat.shiftRight_or_distrib, show 1 >>> 1 = 0 from rfl, Nat.or_zero]

theorem wordKey_or_one (word : ℕ) : wordKey (word ||| 1) = wordKey word := by
  rw [wordKey, wordKey, Nat.shiftRight_or_distrib, show 1 >>> 32 = 0 from rfl, Nat.or_zero]

theorem wordReady_or_one (word : ℕ) : wordReady (word ||| 1) = true := by
  rw [wordReady, Nat.and_one_is_mod, Nat.or_mod_two_eq_one.2 (.inr rfl)]
  rfl

end Words

/-! ### The launch -/

/-- The arguments; tensors are functions of their indices, and a row of the caches is found by its block and its offset.
`item_size_bytes` is `D`. -/
structure LoadArgs (B : Type*) (D : ℕ) where
  logicalIndices : ℕ → ℕ → ℤ
  indices : ℕ → ℕ → ℤ
  requestSlots : ℕ → ℤ
  seqLens : ℕ → ℤ
  cold : ℕ × ℕ → Fin D → B
  numRealReqs : ℕ
  numRows : ℕ
  topk : ℕ
  maxNumSeqs : ℕ
  hotCapacity : ℕ
  slotStrideTokens : ℕ
  unionHashCapacity : ℕ
  numTokensPerSeq : ℕ
  layerId : ℕ
  phaseId : ℕ
  blockSize : ℕ

/-- Where a block is; `returned true` is the end of a block that has copied. -/
inductive LoadPc (D : ℕ)
  | start
  | probe (n bucket : ℕ)
  | cas (n bucket old : ℕ)
  | fill (bucket : ℕ)
  | publish (bucket : ℕ)
  | wait (bucket : ℕ)
  | take (bucket : ℕ)
  | selected (hotSlot : ℤ) (copy : Bool)
  | copying (dst : ℕ) (bytes : Finset (Fin D)) (marked : Bool)
  | returned (copied : Bool)
  deriving DecidableEq

/-- The memory the blocks share, and the point each block is at. -/
structure LoadState (B : Type*) (D : ℕ) where
  pc : ℕ × ℕ → LoadPc D
  unionHashEntries : ℕ × ℕ → ℕ
  unionHashValues : ℕ × ℕ → ℕ
  residentTokens : ℕ × ℕ → Bool
  hot : ℕ × ℕ → Fin D → B
  output : ℕ × ℕ → ℤ
  hotOutputSlots : ℕ → ℤ

/-- A step of the first thread of a block, or one byte copied by any of its threads. -/
inductive LoadOp (D : ℕ)
  | thread0 (b : ℕ × ℕ)
  | copyByte (b : ℕ × ℕ) (byte : Fin D)

variable {B : Type*} {D : ℕ}

namespace LoadArgs

variable (a : LoadArgs B D) (row : ℕ) (b : ℕ × ℕ)

def tokensPerSeq : ℕ := if 0 < a.numTokensPerSeq then a.numTokensPerSeq else 1

def reqOffset : ℕ := row / a.tokensPerSeq

def tokenStep : ℕ := row - a.reqOffset row * a.tokensPerSeq

/-- The rows past the two early returns. -/
def Active : Prop :=
  row < a.numRealReqs * a.tokensPerSeq ∧ 0 ≤ a.requestSlots row ∧ a.requestSlots row < (a.maxNumSeqs : ℤ)

def slot : ℕ := (a.requestSlots row).toNat

def hotBase : ℕ := a.slot row * a.slotStrideTokens

/-- A sequence that fits its hot slots has every position at the slot of the same number. -/
def ShortSequence : Prop := 0 < a.seqLens row ∧ a.seqLens row ≤ (a.hotCapacity : ℤ)

instance : Decidable (a.ShortSequence row) := inferInstanceAs (Decidable (_ ∧ _))

/-- The first of the positions whose tokens this launch produces. -/
def outputStart : ℤ := a.seqLens row - (a.tokensPerSeq : ℤ)

def outputPos : ℤ := a.outputStart row + (a.tokenStep row : ℤ)

def epoch : ℕ := launchEpoch (a.seqLens row) a.layerId a.phaseId

/-- What is written to `hot_output_slots`. -/
def hotOutputSlot : ℤ :=
  if a.outputPos row < 0 then -1
  else (a.hotBase row : ℤ) + if a.ShortSequence row then a.outputPos row else (a.hotCapacity : ℤ) +
    (a.tokenStep row : ℤ)

def src : ℤ := a.indices b.1 b.2

def logical : ℤ := a.logicalIndices b.1 b.2

/-- What the kernel checks of a choice before it loads it. -/
def Valid : Prop := 0 ≤ a.src b ∧ 0 ≤ a.logical b ∧ (a.ShortSequence b.1 → a.logical b < a.seqLens b.1)

/-- The chosen position is one of those this launch produces. -/
def OutputSpan : Prop := a.outputStart b.1 ≤ a.logical b ∧ a.logical b < a.seqLens b.1

/-- `static_cast<uint32_t>(logical)`, the key of the hash table. -/
def key : ℕ := uint32 (a.logical b)

/-- The entry of the selection that a block fills, counted through the rows of its request. -/
def entry : ℕ := a.tokenStep b.1 * a.topk + b.2

/-- The bucket of the hash of a key. -/
def home (key : ℕ) : ℕ := (key * 11400714819323198485 % 2 ^ 64) &&& (a.unionHashCapacity - 1)

def nextBucket (bucket : ℕ) : ℕ := (bucket + 1) &&& (a.unionHashCapacity - 1)

/-- The block and the offset of a row of a cache. -/
def pageOf (index : ℕ) : ℕ × ℕ := (index / a.blockSize, index % a.blockSize)

instance : Decidable (a.Active row) := inferInstanceAs (Decidable (_ ∧ _))
instance : Decidable (a.Valid b) := inferInstanceAs (Decidable (_ ∧ _ ∧ (_ → _)))
instance : Decidable (a.OutputSpan b) := inferInstanceAs (Decidable (_ ∧ _))

end LoadArgs

namespace LoadState

variable (s : LoadState B D) (b : ℕ × ℕ)

def goto (pc : LoadPc D) : LoadState B D := { s with pc := Function.update s.pc b pc }

def storeEntry (slot bucket word : ℕ) : LoadState B D :=
  { s with unionHashEntries := Function.update s.unionHashEntries (slot, bucket) word }

def storeValue (slot bucket value : ℕ) : LoadState B D :=
  { s with unionHashValues := Function.update s.unionHashValues (slot, bucket) value }

def markResident (slot pos : ℕ) : LoadState B D :=
  { s with residentTokens := Function.update s.residentTokens (slot, pos) true }

/-- The results of a block: its entry of `output` and, from the first entry of the row, the row of `hot_output_slots`.
-/
def storeOutput (hotSlot rowSlot : ℤ) : LoadState B D :=
  { s with
    output := Function.update s.output b hotSlot
    hotOutputSlots := if b.2 = 0 then Function.update s.hotOutputSlots b.1 rowSlot else s.hotOutputSlots }

def storeByte (page : ℕ × ℕ) (byte : Fin D) (v : B) : LoadState B D :=
  { s with hot := Function.update s.hot page (Function.update (s.hot page) byte v) }

end LoadState

namespace LoadArgs

variable (a : LoadArgs B D) (s : LoadState B D) (b : ℕ × ℕ)

/-- The store of the results; the block of the first entry marks the position that the row will write. -/
def emit (hotSlot : ℤ) : LoadState B D :=
  let s := s.storeOutput b hotSlot (a.hotOutputSlot b.1)
  if b.2 = 0 ∧ a.ShortSequence b.1 ∧ 0 ≤ a.outputPos b.1 ∧ a.outputPos b.1 < (a.hotCapacity : ℤ) then
    s.markResident (a.slot b.1) (a.outputPos b.1).toNat
  else s

/-- One step of the first thread of block `b`.  The loop on the ready bit is a step that waits for it. -/
def thread0 : Option (LoadState B D) :=
  match s.pc b with
  | .start =>
    if a.Active b.1 then
      if a.Valid b then
        if a.ShortSequence b.1 then
          some (s.goto b (.selected ((a.hotBase b.1 : ℤ) + a.logical b)
            (!decide (a.OutputSpan b) && !s.residentTokens (a.slot b.1, (a.logical b).toNat))))
        else if a.OutputSpan b then
          some (s.goto b (.selected
            ((a.hotBase b.1 : ℤ) + (a.hotCapacity : ℤ) + a.logical b - a.outputStart b.1) false))
        else some (s.goto b (.probe 0 (a.home (a.key b))))
      else some (s.goto b (.selected (-1) false))
    else some ((s.storeOutput b (-1) (-1)).goto b (.returned false))
  | .probe n bucket =>
    if n < a.unionHashCapacity then
      let old := s.unionHashEntries (a.slot b.1, bucket)
      if wordEpoch old = a.epoch b.1 then
        if wordKey old = a.key b then some (s.goto b (.wait bucket))
        else some (s.goto b (.probe (n + 1) (a.nextBucket bucket)))
      else some (s.goto b (.cas n bucket old))
    else some (s.goto b (.selected (-1) false))
  | .cas n bucket old =>
    if s.unionHashEntries (a.slot b.1, bucket) = old then
      some ((s.storeEntry (a.slot b.1) bucket (pendingWord (a.key b) (a.epoch b.1))).goto b (.fill bucket))
    else some (s.goto b (.probe (n + 1) bucket))
  | .fill bucket => some ((s.storeValue (a.slot b.1) bucket (a.entry b)).goto b (.publish bucket))
  | .publish bucket =>
    some ((s.storeEntry (a.slot b.1) bucket (s.unionHashEntries (a.slot b.1, bucket) ||| 1)).goto b
      (.selected ((a.hotBase b.1 : ℤ) + (a.entry b : ℤ)) true))
  | .wait bucket =>
    if wordReady (s.unionHashEntries (a.slot b.1, bucket)) then some (s.goto b (.take bucket)) else none
  | .take bucket =>
    some (s.goto b (.selected ((a.hotBase b.1 : ℤ) + (s.unionHashValues (a.slot b.1, bucket) : ℤ)) false))
  | .selected hotSlot copy =>
    some ((a.emit s b hotSlot).goto b
      (if a.Valid b ∧ copy = true then .copying hotSlot.toNat ∅ false else .returned false))
  | .copying dst bytes marked =>
    if marked = false then
      -- after the bytes of its own
      if ∀ byte : Fin D, byte.val % 256 = 0 → byte ∈ bytes then
        some ((if a.ShortSequence b.1 then s.markResident (a.slot b.1) (a.logical b).toNat else s).goto b
          (.copying dst bytes true))
      else none
    else if bytes = Finset.univ then some (s.goto b (.returned true))
    else none
  | .returned _ => none

/-- A byte of the row is copied. -/
def copyByte (byte : Fin D) : Option (LoadState B D) :=
  match s.pc b with
  | .copying dst bytes marked =>
    if byte ∈ bytes then none
    else some ((s.storeByte (a.pageOf dst) byte (a.cold (a.pageOf (a.src b).toNat) byte)).goto b
      (.copying dst (insert byte bytes) marked))
  | _ => none

/-- The blocks of the grid. -/
def Grid : Prop := b.1 < a.numRows ∧ b.2 < a.topk

instance : Decidable (a.Grid b) := inferInstanceAs (Decidable (_ ∧ _))

/-- One step of one block of the grid: of its first thread, or of the thread of one byte. -/
def step : LoadOp D → Option (LoadState B D)
  | .thread0 b => if a.Grid b then a.thread0 s b else none
  | .copyByte b byte => if a.Grid b then a.copyByte s b byte else none

end LoadArgs

/-- One launch on the memory of `s₀`. -/
def loadSystem (a : LoadArgs B D) (s₀ : LoadState B D) : System (LoadState B D) (LoadOp D) where
  initial s := s = s₀
  next := a.step

/-- Every block has returned. -/
def Finished (a : LoadArgs B D) (s : LoadState B D) : Prop :=
  ∀ row < a.numRows, ∀ i < a.topk, ∃ copied, s.pc (row, i) = .returned copied

instance (a : LoadArgs B D) (s : LoadState B D) : Decidable (Finished a s) :=
  inferInstanceAs (Decidable (∀ _ < _, ∀ _ < _, ∃ _ : Bool, _))

/-! ### What one step can do -/

/-- Every step a block can take, with the guards it passed and the state it leaves. -/
inductive StepCase (a : LoadArgs B D) (s : LoadState B D) (b : ℕ × ℕ) : LoadState B D → Prop
  | inactive (hpc : s.pc b = .start) (hrow : ¬ a.Active b.1) :
      StepCase a s b ((s.storeOutput b (-1) (-1)).goto b (.returned false))
  | invalid (hpc : s.pc b = .start) (hrow : a.Active b.1) (hvalid : ¬ a.Valid b) :
      StepCase a s b (s.goto b (.selected (-1) false))
  | short (hpc : s.pc b = .start) (hrow : a.Active b.1) (hvalid : a.Valid b) (hshort : a.ShortSequence b.1) :
      StepCase a s b (s.goto b (.selected ((a.hotBase b.1 : ℤ) + a.logical b)
        (!decide (a.OutputSpan b) && !s.residentTokens (a.slot b.1, (a.logical b).toNat))))
  | span (hpc : s.pc b = .start) (hrow : a.Active b.1) (hvalid : a.Valid b) (hlong : ¬ a.ShortSequence b.1)
      (hspan : a.OutputSpan b) : StepCase a s b
        (s.goto b (.selected ((a.hotBase b.1 : ℤ) + (a.hotCapacity : ℤ) + a.logical b - a.outputStart b.1) false))
  | look (hpc : s.pc b = .start) (hrow : a.Active b.1) (hvalid : a.Valid b) (hlong : ¬ a.ShortSequence b.1)
      (hspan : ¬ a.OutputSpan b) : StepCase a s b (s.goto b (.probe 0 (a.home (a.key b))))
  | exhausted (n bucket : ℕ) (hpc : s.pc b = .probe n bucket) (hn : a.unionHashCapacity ≤ n) :
      StepCase a s b (s.goto b (.selected (-1) false))
  | stale (n bucket : ℕ) (hpc : s.pc b = .probe n bucket) (hn : n < a.unionHashCapacity)
      (hepoch : wordEpoch (s.unionHashEntries (a.slot b.1, bucket)) ≠ a.epoch b.1) :
      StepCase a s b (s.goto b (.cas n bucket (s.unionHashEntries (a.slot b.1, bucket))))
  | found (n bucket : ℕ) (hpc : s.pc b = .probe n bucket)
      (hepoch : wordEpoch (s.unionHashEntries (a.slot b.1, bucket)) = a.epoch b.1)
      (hkey : wordKey (s.unionHashEntries (a.slot b.1, bucket)) = a.key b) : StepCase a s b (s.goto b (.wait bucket))
  | pass (n bucket : ℕ) (hpc : s.pc b = .probe n bucket) (hn : n < a.unionHashCapacity)
      (hepoch : wordEpoch (s.unionHashEntries (a.slot b.1, bucket)) = a.epoch b.1)
      (hkey : wordKey (s.unionHashEntries (a.slot b.1, bucket)) ≠ a.key b) :
      StepCase a s b (s.goto b (.probe (n + 1) (a.nextBucket bucket)))
  | won (n bucket old : ℕ) (hpc : s.pc b = .cas n bucket old) (hold : s.unionHashEntries (a.slot b.1, bucket) = old) :
      StepCase a s b ((s.storeEntry (a.slot b.1) bucket (pendingWord (a.key b) (a.epoch b.1))).goto b (.fill bucket))
  | lost (n bucket old : ℕ) (hpc : s.pc b = .cas n bucket old)
    (hold : s.unionHashEntries (a.slot b.1, bucket) ≠ old) :
      StepCase a s b (s.goto b (.probe (n + 1) bucket))
  | filled (bucket : ℕ) (hpc : s.pc b = .fill bucket) :
      StepCase a s b ((s.storeValue (a.slot b.1) bucket (a.entry b)).goto b (.publish bucket))
  | published (bucket : ℕ) (hpc : s.pc b = .publish bucket) : StepCase a s b
      ((s.storeEntry (a.slot b.1) bucket (s.unionHashEntries (a.slot b.1, bucket) ||| 1)).goto b
        (.selected ((a.hotBase b.1 : ℤ) + (a.entry b : ℤ)) true))
  | ready (bucket : ℕ) (hpc : s.pc b = .wait bucket)
      (hready : wordReady (s.unionHashEntries (a.slot b.1, bucket)) = true) : StepCase a s b (s.goto b (.take bucket))
  | taken (bucket : ℕ) (hpc : s.pc b = .take bucket) : StepCase a s b
      (s.goto b (.selected ((a.hotBase b.1 : ℤ) + (s.unionHashValues (a.slot b.1, bucket) : ℤ)) false))
  | emitted (hotSlot : ℤ) (copy : Bool) (hpc : s.pc b = .selected hotSlot copy) : StepCase a s b
      ((a.emit s b hotSlot).goto b
        (if a.Valid b ∧ copy = true then .copying hotSlot.toNat ∅ false else .returned false))
  | marked (dst : ℕ) (bytes : Finset (Fin D)) (hpc : s.pc b = .copying dst bytes false) : StepCase a s b
      ((if a.ShortSequence b.1 then s.markResident (a.slot b.1) (a.logical b).toNat else s).goto b
        (.copying dst bytes true))
  | copied (dst : ℕ) (hpc : s.pc b = .copying dst Finset.univ true) : StepCase a s b (s.goto b (.returned true))
  | byte (dst : ℕ) (bytes : Finset (Fin D)) (marked : Bool) (byte : Fin D) (hpc : s.pc b = .copying dst bytes marked)
      (hbyte : byte ∉ bytes) : StepCase a s b
        ((s.storeByte (a.pageOf dst) byte (a.cold (a.pageOf (a.src b).toNat) byte)).goto b
          (.copying dst (insert byte bytes) marked))

/-- The block that takes the step. -/
def LoadOp.block : LoadOp D → ℕ × ℕ
  | .thread0 b => b
  | .copyByte b _ => b

section Steps

variable {a : LoadArgs B D} {s s' : LoadState B D} {b : ℕ × ℕ}

/-- The first thread takes one of these steps. -/
theorem thread0_cases (h : a.thread0 s b = some s') : StepCase a s b s' := by
  unfold LoadArgs.thread0 at h
  split at h
  -- one branch of the kernel each, in its order
  case h_1 hpc =>
    split_ifs at h with hrow hvalid hshort hspan <;> cases h
    · exact .short hpc hrow hvalid hshort
    · exact .span hpc hrow hvalid hshort hspan
    · exact .look hpc hrow hvalid hshort hspan
    · exact .invalid hpc hrow hvalid
    · exact .inactive hpc hrow
  case h_2 n bucket hpc =>
    split at h
    case isTrue hn =>
      dsimp only at h
      split_ifs at h with hepoch hkey <;> cases h
      · exact .found n bucket hpc hepoch hkey
      · exact .pass n bucket hpc hn hepoch hkey
      · exact .stale n bucket hpc hn hepoch
    case isFalse hn =>
      cases h
      exact .exhausted n bucket hpc (Nat.le_of_not_lt hn)
  case h_3 n bucket old hpc =>
    split_ifs at h with hold <;> cases h
    · exact .won n bucket _ hpc hold
    · exact .lost n bucket old hpc hold
  case h_4 bucket hpc =>
    cases h
    exact .filled bucket hpc
  case h_5 bucket hpc =>
    cases h
    exact .published bucket hpc
  case h_6 bucket hpc =>
    split_ifs at h with hready
    cases h
    exact .ready bucket hpc hready
  case h_7 bucket hpc =>
    cases h
    exact .taken bucket hpc
  case h_8 hotSlot copy hpc =>
    cases h
    exact .emitted hotSlot copy hpc
  case h_9 dst bytes marked hpc =>
    split at h
    case isTrue hmarked =>
      subst hmarked
      split at h
      case isTrue => cases h; exact .marked dst bytes hpc
      case isFalse => cases h
    case isFalse hmarked =>
      split at h
      case isTrue hbytes =>
        cases h
        subst hbytes
        rw [Bool.not_eq_false] at hmarked
        subst hmarked
        exact .copied dst hpc
      case isFalse => cases h
  case h_10 => cases h

theorem copyByte_cases {byte : Fin D} (h : a.copyByte s b byte = some s') : StepCase a s b s' := by
  unfold LoadArgs.copyByte at h
  split at h
  case h_1 dst bytes marked hpc =>
    split_ifs at h with hbyte
    cases h
    exact .byte dst bytes marked byte hpc hbyte
  case h_2 => cases h

/-- So every step of the launch is one of these, of a block of the grid. -/
theorem step_cases {op : LoadOp D} (h : a.step s op = some s') : a.Grid op.block ∧ StepCase a s op.block s' := by
  cases op with
  | thread0 b =>
    change (if a.Grid b then a.thread0 s b else none) = some s' at h
    split at h
    case isTrue hgrid => exact ⟨hgrid, thread0_cases h⟩
    case isFalse => cases h
  | copyByte b byte =>
    change (if a.Grid b then a.copyByte s b byte else none) = some s' at h
    split at h
    case isTrue hgrid => exact ⟨hgrid, copyByte_cases h⟩
    case isFalse => cases h

end Steps

end NanoEngine.HiSparse
