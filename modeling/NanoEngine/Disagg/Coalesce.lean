import Mathlib.Data.Multiset.Bind
import NanoEngine.Lib.Merging

/-!
# NanoEngine.Disagg.Coalesce — merging the RDMA reads of a transfer

* `coalesceRdmaOps`: the reads grouped by their pair of memory regions, sorted by offsets, and each merged with the read
  put out last where the two are adjacent on both sides and the sum fits `max_bytes`.
* `copies`: the single-byte copies that a list of reads stands for.
* `coalesceRdmaOps_copies`: the merged reads copy the same bytes, and each was made from a run of reads with its bytes.
-/

namespace NanoEngine.Disagg

/-- One read: the bytes of the local region from `localOff` are filled from the remote region at `remoteOff`. -/
structure RdmaOp (L R : Type*) where
  localHandler : L
  remoteHandler : R
  localOff : ℤ
  remoteOff : ℤ
  length : ℕ
deriving DecidableEq

variable {L R : Type*}

/-- The single-byte copies of a read: local region, local byte, remote region, remote byte. -/
def RdmaOp.bytes (op : RdmaOp L R) : List (L × ℤ × R × ℤ) :=
  (List.range op.length).map fun (i : ℕ) =>
    (op.localHandler, op.localOff + i, op.remoteHandler, op.remoteOff + i)

def copies (ops : List (RdmaOp L R)) : Multiset (L × ℤ × R × ℤ) := ops.flatMap RdmaOp.bytes

def longest (ops : List (RdmaOp L R)) : ℕ := (ops.map RdmaOp.length).foldr max 0

/-- `key=lambda op: (op[2], op[3])`. -/
def RdmaOp.before (a b : RdmaOp L R) : Bool :=
  a.localOff < b.localOff || (a.localOff == b.localOff && decide (a.remoteOff ≤ b.remoteOff))

variable {maxBytes : ℤ}

/-- What a merged read has to do with the reads it was made from. -/
def MadeFrom (maxBytes : ℤ) (op : RdmaOp L R) (part : List (RdmaOp L R)) : Prop :=
  op.bytes = part.flatMap RdmaOp.bytes ∧ (op.length : ℤ) ≤ max maxBytes (longest part)

theorem madeFrom_one (op : RdmaOp L R) : MadeFrom maxBytes op [op] := by
  refine ⟨by simp, le_max_of_le_right ?_⟩
  simp [longest]

theorem sorted_perm (groups : List ((L × R) × List (RdmaOp L R))) :
    (groups.flatMap fun group => group.2.mergeSort RdmaOp.before).Perm (groups.flatMap Prod.snd) :=
  List.Perm.flatMap_left groups fun group _ => List.mergeSort_perm group.2 RdmaOp.before

theorem copies_of_parts {result : List (RdmaOp L R)} {parts : List (List (RdmaOp L R))}
    (h : List.Forall₂ (MadeFrom maxBytes) result parts) : copies result = copies parts.flatten := by
  unfold copies
  induction h with
  | nil => rfl
  | cons hop _ ih =>
    simp only [List.flatMap_cons, List.flatten_cons, List.flatMap_append, ← Multiset.coe_add] at ih ⊢
    rw [hop.1, ih]

section Coalesce

variable [DecidableEq L] [DecidableEq R]

def RdmaOp.mergeWith (maxBytes : ℤ) (previous op : RdmaOp L R) : Option (RdmaOp L R) :=
  let sameHandlers := previous.localHandler = op.localHandler ∧ previous.remoteHandler = op.remoteHandler
  let localContiguous := previous.localOff + previous.length = op.localOff
  let remoteContiguous := previous.remoteOff + previous.length = op.remoteOff
  let fits := (previous.length : ℤ) + op.length ≤ maxBytes
  if sameHandlers ∧ remoteContiguous ∧ localContiguous ∧ fits then
    some { previous with length := previous.length + op.length }
  else none

/-- `_coalesce_rdma_ops`.  The last read put out may belong to the group before. -/
def coalesceRdmaOps (ops : List (RdmaOp L R)) (maxBytes : ℤ) : Except String (List (RdmaOp L R)) :=
  if maxBytes ≤ 0 then .error "max_bytes must be positive"
  else
    let groups := Merging.groupBy (fun op => (op.localHandler, op.remoteHandler)) ops
    .ok (groups.foldl (fun coalesced group =>
      Merging.mergeAll (RdmaOp.mergeWith maxBytes) coalesced (group.2.mergeSort RdmaOp.before)) [])

theorem mergeWith_eq_some {previous op merged : RdmaOp L R} (h : previous.mergeWith maxBytes op = some merged) :
    previous.localHandler = op.localHandler ∧ previous.remoteHandler = op.remoteHandler ∧
      previous.localOff + previous.length = op.localOff ∧ previous.remoteOff + previous.length = op.remoteOff ∧
      (previous.length : ℤ) + op.length ≤ maxBytes ∧
      merged = { previous with length := previous.length + op.length } := by
  unfold RdmaOp.mergeWith at h
  dsimp only at h
  split at h
  · rename_i hcond
    obtain ⟨⟨hl, hr⟩, hremote, hlocal, hfits⟩ := hcond
    exact ⟨hl, hr, hlocal, hremote, hfits, (Option.some.inj h).symm⟩
  · cases h

/-- A merge puts the bytes of the second read after those of the first. -/
theorem mergeWith_bytes {previous op merged : RdmaOp L R} (h : previous.mergeWith maxBytes op = some merged) :
    merged.bytes = previous.bytes ++ op.bytes := by
  obtain ⟨hl, hr, hlocal, hremote, -, rfl⟩ := mergeWith_eq_some h
  simp only [RdmaOp.bytes, List.range_add, List.map_append, List.map_map]
  congr 1
  refine List.map_congr_left fun i _ => ?_
  simp only [Function.comp_apply, ← hl, ← hr, ← hlocal, ← hremote]
  push_cast
  simp only [add_assoc]

theorem MadeFrom.merge {previous op merged : RdmaOp L R} {part : List (RdmaOp L R)}
    (h : MadeFrom maxBytes previous part) (hm : previous.mergeWith maxBytes op = some merged) :
    MadeFrom maxBytes merged (part ++ [op]) := by
  refine ⟨?_, le_max_of_le_left ?_⟩
  · rw [mergeWith_bytes hm, h.1, List.flatMap_append, List.flatMap_singleton]
  · obtain ⟨-, -, -, -, hfits, rfl⟩ := mergeWith_eq_some hm
    exact_mod_cast hfits

/-- The groups, each sorted, are merged as one list. -/
theorem foldl_groups (groups : List ((L × R) × List (RdmaOp L R))) (coalesced : List (RdmaOp L R)) :
    groups.foldl (fun coalesced group =>
        Merging.mergeAll (RdmaOp.mergeWith maxBytes) coalesced (group.2.mergeSort RdmaOp.before)) coalesced =
      Merging.mergeAll (RdmaOp.mergeWith maxBytes) coalesced
        (groups.flatMap fun group => group.2.mergeSort RdmaOp.before) := by
  induction groups generalizing coalesced with
  | nil => rfl
  | cons group rest ih => rw [List.foldl_cons, ih, List.flatMap_cons, Merging.mergeAll_append]

/-- The merged reads copy the same bytes as the reads they were given: `parts` are the runs of reads they were made
from, each with the bytes of its run, and none is longer than `max_bytes` and every read of the run. -/
theorem coalesceRdmaOps_copies (ops : List (RdmaOp L R)) (maxBytes : ℤ) (hmax : 1 ≤ maxBytes) :
    ∃ result, coalesceRdmaOps ops maxBytes = .ok result ∧ copies result = copies ops ∧
      ∃ parts : List (List (RdmaOp L R)), parts.flatten.Perm ops ∧
        List.Forall₂ (MadeFrom maxBytes) result parts := by
  let groups := Merging.groupBy (fun op : RdmaOp L R => (op.localHandler, op.remoteHandler)) ops
  let sorted := groups.flatMap fun group => group.2.mergeSort RdmaOp.before
  have hperm : sorted.Perm ops := (sorted_perm groups).trans (Merging.groupBy_perm _ ops)
  obtain ⟨parts, hflat, hparts⟩ := Merging.exists_parts (R := MadeFrom maxBytes) madeFrom_one MadeFrom.merge sorted
  refine ⟨Merging.mergeAll (RdmaOp.mergeWith maxBytes) [] sorted, ?_, ?_, parts, ?_, hparts⟩
  · rw [coalesceRdmaOps, if_neg (by omega)]
    exact congrArg Except.ok (foldl_groups groups [])
  · rw [copies_of_parts hparts, hflat]
    exact Multiset.coe_eq_coe.2 (hperm.flatMap_right _)
  · rw [hflat]
    exact hperm

/-- Two regions, and reads that touch on one side only. -/
theorem coalesceRdmaOps_copies_mixed :
    ∃ result, coalesceRdmaOps [⟨"kv", 1, 64, 192, 64⟩, ⟨"kv", 2, 0, 0, 8⟩, ⟨"kv", 1, 0, 128, 64⟩,
        ⟨"kv", 1, 128, 512, 64⟩] 128 = .ok result ∧
      copies result = copies [⟨"kv", 1, 64, 192, 64⟩, ⟨"kv", 2, 0, 0, 8⟩, ⟨"kv", 1, 0, 128, 64⟩,
        ⟨"kv", 1, 128, 512, 64⟩] ∧
      ∃ parts : List (List (RdmaOp String ℕ)), parts.flatten.Perm
        [⟨"kv", 1, 64, 192, 64⟩, ⟨"kv", 2, 0, 0, 8⟩,
        ⟨"kv", 1, 0, 128, 64⟩, ⟨"kv", 1, 128, 512, 64⟩] ∧ List.Forall₂ (MadeFrom 128) result parts :=
  coalesceRdmaOps_copies _ 128 (by decide)

end Coalesce

end NanoEngine.Disagg
