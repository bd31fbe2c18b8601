import Mathlib.Algebra.Field.Rat
import Mathlib.Data.List.MinMax
import Mathlib.Order.Defs.LinearOrder
import NanoEngine.Lib.Permutations

/-!
# NanoEngine.Experts.Rebalance — where the replicas of the experts are put

`balanced_packing`, `replicate_experts`, `rebalance_experts_hierarchical` and `rebalance_experts` of
`layers/backends/experts/eplb.py`, with exact weights.  All tensor operations but one go row by row, so that a function
is given for one row: a layer, or the part of a layer on one node.  `none` is an exception.

* `Choices`: how `sort` and `max` of the tensor library break ties.
* `balancedPacking`: pack and rank of every group; an entry that is not set yet is `none`.
* `replicateExperts`, `rebalanceNode`, `rebalanceExpertsHierarchical`: `phy2log`, the ranks and `logcnt` of a row.
* `rebalanceExperts`: all layers, with `log2phy`.
-/

namespace NanoEngine.Experts

open Updates

/-- `sort(descending=True).indices` and `max().indices`, with any order among equal values. -/
structure Choices where
  sortDescending : List ℚ → List ℕ
  maxIndex : List ℚ → ℕ
  sort_perm : ∀ w, (sortDescending w).Perm (List.range w.length)
  sort_sorted : ∀ w : List ℚ, (sortDescending w).Pairwise fun i j => w.getD j 0 ≤ w.getD i 0
  maxIndex_lt : ∀ w, w ≠ [] → maxIndex w < w.length
  le_maxIndex : ∀ w : List ℚ, ∀ x ∈ w, x ≤ w.getD (maxIndex w) 0

/-- The variables of the packing loop; `placed` is `pack_index` and `rank_in_pack`. -/
structure PackLoop where
  packWeights : List ℚ
  packItems : List ℕ
  placed : List (Option (ℕ × ℕ))

/-- One group goes to the lightest of the packs with room, the first of them if there are several. -/
def packGroup (weight : List ℚ) (numPacks groupsPerPack : ℕ) (l : PackLoop) (group : ℕ) : Option PackLoop :=
  let room := (List.range numPacks).filter fun i => decide (l.packItems.getD i 0 < groupsPerPack)
  (room.argmin fun i => l.packWeights.getD i 0).map fun pack =>
    { packWeights := l.packWeights.set pack (l.packWeights.getD pack 0 + weight.getD group 0)
      packItems := l.packItems.set pack (l.packItems.getD pack 0 + 1)
      placed := l.placed.set group (some (pack, l.packItems.getD pack 0)) }

/-- `balanced_packing` of one row. -/
def balancedPacking (c : Choices) (weight : List ℚ) (numPacks : ℕ) : Option (List (ℕ × ℕ)) :=
  if numPacks = 0 ∨ weight.length % numPacks ≠ 0 then none
  else
    let groupsPerPack := weight.length / numPacks
    if groupsPerPack = 1 then some ((List.range weight.length).map fun i => (i, 0))
    else
      let start : PackLoop :=
        ⟨List.replicate numPacks 0, List.replicate numPacks 0, List.replicate weight.length none⟩
      ((c.sortDescending weight).foldlM (packGroup weight numPacks groupsPerPack) start).bind fun l => l.placed.mapM id

/-- The tensors of `replicate_experts`. -/
structure Replicas where
  phy2log : List ℕ
  rank : List ℕ
  logcnt : List ℕ

/-- Slot `i` gets one more replica of the expert with the largest load per replica. -/
def addReplica (c : Choices) (weight : List ℚ) (r : Replicas) (i : ℕ) : Replicas :=
  let redundant := c.maxIndex (List.zipWith (fun (w : ℚ) (n : ℕ) => w / n) weight r.logcnt)
  { phy2log := r.phy2log.set i redundant
    rank := r.rank.set i (r.logcnt.getD redundant 0)
    logcnt := r.logcnt.set redundant (r.logcnt.getD redundant 0 + 1) }

/-- `replicate_experts` of one row; `max` of an empty row raises. -/
def replicateExperts (c : Choices) (weight : List ℚ) (numPhy : ℕ) : Option Replicas :=
  let numLog := weight.length
  if numPhy < numLog ∨ numLog = 0 ∧ 0 < numPhy then none
  else
    some ((List.range' numLog (numPhy - numLog)).foldl (addReplica c weight)
      ⟨List.range numPhy, List.replicate numPhy 0, List.replicate numLog 1⟩)

/-- The part of `rebalance_experts_hierarchical` on one node: the slots, packed to the GPUs of the node. -/
def rebalanceNode (c : Choices) (tokensPerMlog : List ℚ)
    (numPhy numGpus phyExpertsPerGpu : ℕ) : Option Replicas := do
  let r ← replicateExperts c tokensPerMlog numPhy
  let tokensPerPhy ← gather (List.zipWith (fun (w : ℚ) (n : ℕ) => w / n) tokensPerMlog r.logcnt) r.phy2log
  let packs ← balancedPacking c tokensPerPhy numGpus
  let phy2pphy := packs.map fun x => x.1 * phyExpertsPerGpu + x.2
  let pphy2phy := inverse phy2pphy
  let pphy2mlog ← gather r.phy2log pphy2phy
  let pphyrank ← gather r.rank pphy2phy
  return ⟨pphy2mlog, pphyrank, r.logcnt⟩

/-- `rebalance_experts_hierarchical` of one layer. -/
def rebalanceExpertsHierarchical (c : Choices) (weight : List ℚ) (numPhy numGroups numNodes numGpus : ℕ) :
    Option Replicas := do
  let numLog := weight.length
  if numGroups = 0 ∨ numNodes = 0 ∨ numGpus = 0 then none
  if numLog % numGroups ≠ 0 ∨ numGroups % numNodes ≠ 0 ∨ numGpus % numNodes ≠ 0 ∨ numPhy % numGpus ≠ 0
    then none
  let groupSize := numLog / numGroups
  let groupsPerNode := numGroups / numNodes
  let phyExpertsPerGpu := numPhy / numGpus
  let tokensPerGroup := (reshape numGroups groupSize weight).map List.sum
  let packs ← balancedPacking c tokensPerGroup numNodes
  let log2mlog := packs.flatMap fun x =>
    (List.range groupSize).map fun k => (x.1 * groupsPerNode + x.2) * groupSize + k
  let mlog2log := inverse log2mlog
  let tokensPerMlog ← gather weight mlog2log
  let nodes ← (reshape numNodes (numLog / numNodes) tokensPerMlog).mapM fun row =>
    rebalanceNode c row (numPhy / numNodes) (numGpus / numNodes) phyExpertsPerGpu
  let pphy2mlog := nodes.zipIdx.flatMap fun x => x.1.phy2log.map (· + x.2 * (numLog / numNodes))
  let pphy2log ← gather mlog2log pphy2mlog
  let logcnt ← gather (nodes.flatMap Replicas.logcnt) log2mlog
  return ⟨pphy2log, nodes.flatMap Replicas.rank, logcnt⟩

/-- `weight`, `[num_layers, num_logical_experts]`. -/
structure Weights where
  numLayers : ℕ
  numLogicalExperts : ℕ
  rows : List (List ℚ)
  length_rows : rows.length = numLayers
  length_row : ∀ row ∈ rows, row.length = numLogicalExperts

/-- What `rebalance_experts` returns for one layer; `-1` pads a row of `log2phy`. -/
structure LayerPlan where
  phy2log : List ℕ
  log2phy : List (List ℤ)
  logcnt : List ℕ

/-- `log2phy` of one layer, `maxlogcnt` wide. -/
def scatterSlots (numLogicalExperts maxlogcnt numReplicas : ℕ) (r : Replicas) : List (List ℤ) :=
  reshape numLogicalExperts maxlogcnt
    (scatter (List.replicate (numLogicalExperts * maxlogcnt) (-1))
      (List.zipWith (fun e k => e * maxlogcnt + k) r.phy2log r.rank) ((List.range numReplicas).map Int.ofNat))

/-- `rebalance_experts`; `max` of an empty `logcnt` raises. -/
def rebalanceExperts (c : Choices) (weight : Weights) (numReplicas numGroups numNodes numGpus : ℕ) :
    Option (List LayerPlan) := do
  if numNodes = 0 then none
  let layers ← weight.rows.mapM fun row =>
    if numGroups % numNodes = 0 then rebalanceExpertsHierarchical c row numReplicas numGroups numNodes numGpus
    else replicateExperts c row numReplicas
  let maxlogcnt ← (layers.flatMap Replicas.logcnt).max?
  return layers.map fun r => ⟨r.phy2log, scatterSlots weight.numLogicalExperts maxlogcnt numReplicas r, r.logcnt⟩

/-- The slots of a GPU follow one another. -/
def computeGpuIdOfPhysicalExpert (physicalExpertId numLocalPhysicalExperts : ℕ) : ℕ :=
  physicalExpertId / numLocalPhysicalExperts

end NanoEngine.Experts
