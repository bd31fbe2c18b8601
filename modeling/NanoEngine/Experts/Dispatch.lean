import Mathlib.Data.Int.Notation
import NanoEngine.Lib.Permutations

/-!
# NanoEngine.Experts.Dispatch — logical experts to slots

`topk_ids_logical_to_physical` of `layers/backends/experts/eplb.py`, with exact cursors.  The functions of torch return
or raise as they document: `bincount` of integer weights is a tensor of doubles, and an addition in place does not
convert doubles to integers.

* `SortAscending`: what `sort` promises; it need not be stable.
* `rankWithinGroup`: for every entry of a sorted list, how many equal ones are before it.
* `chosenDispatchIndex`: the turn of every token, before the cursors are updated.
* `topkIdsLogicalToPhysical`, `dispatchAll`: one call, and the calls of a layer one after another.
-/

namespace NanoEngine.Experts

open Updates

/-- `sort().indices`. -/
structure SortAscending where
  indices : List ℕ → List ℕ
  perm : ∀ l, (indices l).Perm (List.range l.length)
  sorted : ∀ l : List ℕ, (indices l).Pairwise fun i j => l.getD i 0 ≤ l.getD j 0

/-- The maps of one layer; there is no cursor before the first call. -/
structure EPLBDispatchInfo where
  logicalToAllPhysicalMap : List (List ℤ)
  numValid : List ℕ
  dispatchCursor : Option (List ℕ)

/-- `cummax` of numbers that are not negative. -/
def cummax (l : List ℕ) : List ℕ := (List.range l.length).map fun j => (l.take (j + 1)).foldl max 0

def cumOnes (n : ℕ) : List ℕ := (List.range n).map (· + 1)

/-- The first entry, and those that are not the entry before. -/
def changes (sortedTopkIds : List ℕ) : List Bool :=
  true :: List.zipWith (fun a b => decide (a ≠ b)) sortedTopkIds.tail sortedTopkIds

def offsets (sortedTopkIds : List ℕ) : List ℕ :=
  List.zipWith (fun one change => if change then one else 0) (cumOnes sortedTopkIds.length) (changes sortedTopkIds)

def rankWithinGroup (sortedTopkIds : List ℕ) : List ℕ :=
  List.zipWith (· - ·) (cumOnes sortedTopkIds.length) (cummax (offsets sortedTopkIds))

/-- What torch raises. -/
inductive TorchError
  /-- "index out of range". -/
  | indexError
  /-- "result type Double can't be cast to the desired output type Int". -/
  | castError
  deriving DecidableEq

def orIndexError {α : Type} (x : Option α) : Except TorchError α := x.elim (.error .indexError) .ok

/-- A tensor of counts, by its type. -/
inductive Counts
  | int64 (counts : List ℕ)
  | float64 (counts : List ℕ)

/-- `bincount` with the mask as weights of type `int32`: doubles, but for an empty input, of which it returns zeros of
type `int64`. -/
def bincount (validTopkIds : List ℕ) (validMask : List Bool) (minlength : ℕ) : Counts :=
  if validTopkIds.isEmpty then .int64 (List.replicate minlength 0)
  else .float64 ((List.range minlength).map fun e => (validTopkIds.zip validMask).count (e, true))

/-- `+=` to a tensor of type `int32`. -/
def addInPlace (dispatchCursor : List ℕ) : Counts → Except TorchError (List ℕ)
  | .int64 counts => .ok (List.zipWith (· + ·) dispatchCursor counts)
  | .float64 _ => .error .castError

def isValid (id : ℤ) : Bool := decide (0 ≤ id)

/-- Padding counts as expert `0`. -/
def validId (id : ℤ) : ℕ := if isValid id then id.toNat else 0

/-- The steps 1 to 4 of `topk_ids_logical_to_physical`: the turn of every token. -/
def chosenDispatchIndex (s : SortAscending) (dispatchCursor validTopkIds : List ℕ) : Option (List ℕ) := do
  let sortedIndices := s.indices validTopkIds
  let sortedTopkIds ← gather validTopkIds sortedIndices
  let baseCursor ← gather dispatchCursor sortedTopkIds
  let chosenDispatchIndexSorted := List.zipWith (· + ·) baseCursor (rankWithinGroup sortedTopkIds)
  return scatter (List.replicate validTopkIds.length 0) sortedIndices chosenDispatchIndexSorted

/-- The step 6: the slot of every token. -/
def physicalIds (info : EPLBDispatchInfo) (validTopkIds chosenDispatchIndex : List ℕ) : Option (List ℤ) := do
  let numValid ← gather info.numValid validTopkIds
  let chosenDispatchIndex := List.zipWith (fun c n => c % max n 1) chosenDispatchIndex numValid
  let rows ← gather info.logicalToAllPhysicalMap validTopkIds
  (rows.zip chosenDispatchIndex).mapM fun x => x.1[x.2]?

/-- `topk_ids_logical_to_physical` of a flat tensor, and the new cursor. -/
def topkIdsLogicalToPhysical (s : SortAscending) (info : EPLBDispatchInfo) (topkIds : List ℤ) :
    Except TorchError (List ℤ × EPLBDispatchInfo) := do
  let validMask := topkIds.map isValid
  let validTopkIds := topkIds.map validId
  let dispatchCursor := info.dispatchCursor.getD (List.replicate info.numValid.length 0)
  let chosen ← orIndexError (chosenDispatchIndex s dispatchCursor validTopkIds)
  let dispatchCursor ← addInPlace dispatchCursor (bincount validTopkIds validMask dispatchCursor.length)
  let physicalIds ← orIndexError (physicalIds info validTopkIds chosen)
  let resultTopkIds := List.zipWith (fun valid p => if valid then p else -1) validMask physicalIds
  return (resultTopkIds, { info with dispatchCursor := some dispatchCursor })

/-- The results of the calls, in order. -/
def dispatchAll (s : SortAscending) : EPLBDispatchInfo → List (List ℤ) → Except TorchError (List (List ℤ))
  | _, [] => .ok []
  | info, topkIds :: calls => do
    let (result, info) ← topkIdsLogicalToPhysical s info topkIds
    let results ← dispatchAll s info calls
    return result :: results

end NanoEngine.Experts
