import Mathlib.Algebra.BigOperators.Ring.Finset
import Mathlib.Data.Finset.Lattice.Fold
import NanoEngine.Experts.LocalDispatch

/-!
# NanoEngine.Experts.Generic — one MoE layer three ways

`GenericExperts` of `layers/backends/experts/generic.py`, over a commutative semiring.

* `localPrefill`: a masked copy for each local expert, then the weighted sum over the choices.
* `decodeLaunch`, `decodeCombine`: the padded buffer of `LocalDispatch`, all experts on all rows, then `combine`.
* `computeEp`: every rank's tokens on every rank, then the sum over the ranks.
* `decode_eq_prefill`, `computeEp_eq_prefill`: both agree with the plain path.
-/

namespace NanoEngine.Experts

open Transition

/-- The weights of the experts of one rank; the rows of the gate are before those of `up`. -/
structure ExpertWeights (R : Type*) (H I : ℕ) where
  gateUpProj : ℕ → Fin (I + I) → Fin H → R
  downProj : ℕ → Fin H → Fin I → R

/-- The layer on all ranks; `weights` are by EP rank and TP rank. -/
structure GenericExperts (R : Type*) (H I : ℕ) where
  silu : R → R
  numLocalExperts : ℕ
  topK : ℕ
  epSize : ℕ
  tpSize : ℕ
  weights : ℕ → ℕ → ExpertWeights R H I

/-- The arguments of `forward` on one rank. -/
structure Tokens (R : Type*) (H : ℕ) where
  numTokens : ℕ
  hiddenStates : ℕ → Fin H → R
  topkIds : ℕ → ℕ → ℤ
  topkWeights : ℕ → ℕ → R

variable {R : Type*} [CommSemiring R] {H I : ℕ}

/-- `F.linear`. -/
def linear {n : ℕ} (x w : Fin n → R) : R := ∑ j, x j * w j

/-- SwiGLU of one token. -/
def forwardExpert (silu : R → R) (w : ExpertWeights R H I) (e : ℕ) (x : Fin H → R) : Fin H → R :=
  let gateUp := fun i => linear x (w.gateUpProj e i)
  let act := fun i => silu (gateUp (Fin.castAdd I i)) * gateUp (Fin.natAdd I i)
  fun h => linear act (w.downProj e h)

namespace GenericExperts

variable (g : GenericExperts R H I)

/-- The loop over the local experts, `output[mask] = expert_out`. -/
def expertLoop (epRank tpRank : ℕ) (flatExpertIds : ℕ → ℤ)
    (repeatedHidden : ℕ → Fin H → R) : ℕ → Fin H → R :=
  (List.range g.numLocalExperts).foldl (fun output expertId row =>
    if flatExpertIds row = ((epRank * g.numLocalExperts + expertId : ℕ) : ℤ) then
      forwardExpert g.silu (g.weights epRank tpRank) expertId (repeatedHidden row)
    else output row) fun _ _ => 0

/-- `_compute_local_prefill` before its all-reduce. -/
def localPrefill (epRank tpRank : ℕ) (x : Tokens R H) : ℕ → Fin H → R :=
  let flatExpertIds := fun row => x.topkIds (row / g.topK) (row % g.topK)
  let flatWeights := fun row => x.topkWeights (row / g.topK) (row % g.topK)
  let repeatedHidden := fun row => x.hiddenStates (row / g.topK)
  let output := g.expertLoop epRank tpRank flatExpertIds repeatedHidden
  fun t h => ∑ k ∈ Finset.range g.topK, output (t * g.topK + k) h * flatWeights (t * g.topK + k)

/-- `all_reduce` over the TP group. -/
def tpReduce (partials : ℕ → ℕ → Fin H → R) : ℕ → Fin H → R :=
  fun t h => ∑ τ ∈ Finset.range g.tpSize, partials τ t h

/-- `_compute_local_prefill` of a layer without expert parallelism. -/
def computeLocalPrefill (x : Tokens R H) : ℕ → Fin H → R := g.tpReduce fun τ => g.localPrefill 0 τ x

/-- The dispatch of `_compute_local_decode`. -/
def decodeLaunch (maxNumSeqs : ℕ) (x : Tokens R H)
    (fits : x.numTokens ≤ (LocalPaddedDispatcher.fromExperts H g.numLocalExperts g.topK maxNumSeqs).maxT) :
      Launch R H where
  disp := LocalPaddedDispatcher.fromExperts H g.numLocalExperts g.topK maxNumSeqs
  T := x.numTokens
  hiddenStates := x.hiddenStates
  topkIds := x.topkIds
  fits := fits

/-- The batched products over all rows of the buffer, and the arguments of `combine`. -/
def decodeCombine (tpRank : ℕ) (x : Tokens R H) (s : DispatchState R H) : CombineLaunch R R R H where
  numTokens := x.numTokens
  K := g.topK
  topkIds := x.topkIds
  topkWeights := x.topkWeights
  slotMap := s.slotMap
  expertOut e m := forwardExpert g.silu (g.weights 0 tpRank) e (s.paddedBuf e m)
  toFloat32 := id
  weightToFloat32 := id
  toBfloat16 := id

/-- `max(counts_list)`. -/
def maxCount (x : ℕ → Tokens R H) : ℕ := (Finset.range g.epSize).sup fun r => (x r).numTokens

/-- `all_gather_into_tensor` of the padded tensors of all ranks. -/
def gathered (x : ℕ → Tokens R H) : Tokens R H where
  numTokens := g.epSize * g.maxCount x
  hiddenStates row :=
    let r := row / g.maxCount x
    let i := row % g.maxCount x
    if i < (x r).numTokens then (x r).hiddenStates i else fun _ => 0
  topkIds row k :=
    let r := row / g.maxCount x
    let i := row % g.maxCount x
    if i < (x r).numTokens then (x r).topkIds i k else -1
  topkWeights row k :=
    let r := row / g.maxCount x
    let i := row % g.maxCount x
    if i < (x r).numTokens then (x r).topkWeights i k else 0

/-- `_compute_ep` on rank `epRank`; `x` are the tokens of the ranks. -/
def computeEp (x : ℕ → Tokens R H) (epRank : ℕ) : ℕ → Fin H → R :=
  let epReduced := fun τ t h => ∑ r ∈ Finset.range g.epSize, g.localPrefill r τ (g.gathered x) t h
  let reduced := g.tpReduce epReduced
  let start := epRank * g.maxCount x
  fun t => reduced (start + t)

/-- The same layer with the experts of all EP ranks on one. -/
def merged : GenericExperts R H I where
  silu := g.silu
  numLocalExperts := g.epSize * g.numLocalExperts
  topK := g.topK
  epSize := 1
  tpSize := g.tpSize
  weights _ τ :=
    { gateUpProj := fun e => (g.weights (e / g.numLocalExperts) τ).gateUpProj (e % g.numLocalExperts)
      downProj := fun e => (g.weights (e / g.numLocalExperts) τ).downProj (e % g.numLocalExperts) }

/-! ### The plain path, one choice at a time -/

/-- What the choice `id` adds on a rank, before its weight. -/
def choiceOut (epRank tpRank : ℕ) (id : ℤ) (x : Fin H → R) : Fin H → R :=
  if ((epRank * g.numLocalExperts : ℕ) : ℤ) ≤ id ∧
    id < ((epRank * g.numLocalExperts + g.numLocalExperts : ℕ) : ℤ) then
    forwardExpert g.silu (g.weights epRank tpRank) (id - (epRank * g.numLocalExperts : ℕ)).toNat x
  else fun _ => 0

theorem foldl_experts (first : ℕ) (ids : ℕ → ℤ) (forward : ℕ → ℕ → Fin H → R) (row n : ℕ) :
    (List.range n).foldl (fun (output : ℕ → Fin H → R) e row =>
        if ids row = ((first + e : ℕ) : ℤ) then forward e row else output row) (fun _ _ => 0) row =
      if (first : ℤ) ≤ ids row ∧ ids row < ((first + n : ℕ) : ℤ) then forward (ids row - first).toNat row
      else fun _ => 0 := by
  induction n with
  | zero =>
    rw [if_neg fun h => by omega]
    rfl
  | succ n ih =>
    rw [List.range_succ, List.foldl_append, List.foldl_cons, List.foldl_nil, ih]
    by_cases hrow : ids row = ((first + n : ℕ) : ℤ)
    · rw [if_pos hrow, if_pos ⟨by omega, by omega⟩, hrow]
      congr 1
      omega
    · rw [if_neg hrow]
      refine ite_congr (propext (and_congr_right fun _ => ?_)) (fun _ => rfl) fun _ => rfl
      omega

theorem localPrefill_eq (epRank tpRank : ℕ) (x : Tokens R H) (t : ℕ) (h : Fin H) :
    g.localPrefill epRank tpRank x t h =
      ∑ k ∈ Finset.range g.topK,
        g.choiceOut epRank tpRank (x.topkIds t k) (x.hiddenStates t) h * x.topkWeights t k := by
  refine Finset.sum_congr rfl fun k hk => ?_
  have hlt := Finset.mem_range.1 hk
  have hdiv : (t * g.topK + k) / g.topK = t := by
    rw [Nat.mul_comm, Nat.mul_add_div (by omega), Nat.div_eq_of_lt hlt, Nat.add_zero]
  have hmod : (t * g.topK + k) % g.topK = k := by rw [Nat.mul_comm, Nat.mul_add_mod, Nat.mod_eq_of_lt hlt]
  have hrow := foldl_experts (epRank * g.numLocalExperts) (fun row => x.topkIds (row / g.topK) (row % g.topK))
    (fun e row => forwardExpert g.silu (g.weights epRank tpRank) e (x.hiddenStates (row / g.topK)))
    (t * g.topK + k) g.numLocalExperts
  rw [hdiv, hmod] at hrow
  rw [expertLoop, hrow, choiceOut]
  dsimp only
  rw [hdiv, hmod]

/-! ### Decode -/

theorem foldl_add_ite {M : Type*} [AddCommMonoid M] (p : ℕ → Prop) [DecidablePred p] (f : ℕ → M) (n : ℕ) :
    (List.range n).foldl (fun acc k => if p k then acc + f k else acc) 0 =
      ∑ k ∈ Finset.range n, if p k then f k else 0 := by
  induction n with
  | zero => rfl
  | succ n ih =>
    rw [List.range_succ, List.foldl_append, List.foldl_cons, List.foldl_nil, ih, Finset.sum_range_succ]
    split
    case isTrue => rfl
    case isFalse => rw [add_zero]

variable {g}

/-- The sum of a token after a dispatch. -/
theorem combine_dispatched {maxNumSeqs τ : ℕ} {x : Tokens R H}
    {fits : x.numTokens ≤ (LocalPaddedDispatcher.fromExperts H g.numLocalExperts g.topK maxNumSeqs).maxT}
    {s : DispatchState R H} (hd : Bucketed (g.decodeLaunch maxNumSeqs x fits) s) {order : List (ℕ × ℕ)}
    (ho : order.Perm (g.decodeCombine τ x s).grid) {t : ℕ} (ht : t < x.numTokens) (h : Fin H) :
    (g.decodeCombine τ x s).combine order t h =
      ∑ k ∈ Finset.range g.topK, if 0 ≤ s.slotMap t k then
        x.topkWeights t k * forwardExpert g.silu (g.weights 0 τ) (x.topkIds t k).toNat
          (x.hiddenStates t) h else 0 := by
  have hc : (g.decodeCombine τ x s).Combines (g.decodeLaunch maxNumSeqs x fits) s
      fun e row => forwardExpert g.silu (g.weights 0 τ) e row :=
    ⟨rfl, rfl, rfl, rfl, fun _ _ => rfl⟩
  rw [hd.combine_eq hc ho ht]
  exact foldl_add_ite (fun k => 0 ≤ s.slotMap t k) _ g.topK

/-- **Decode computes what prefill computes**, in any order of the programs of its kernels and on every rank of the TP
group, while no expert gets more than its capacity. -/
theorem decode_eq_prefill {maxNumSeqs : ℕ} {x : Tokens R H}
    (fits : x.numTokens ≤ (LocalPaddedDispatcher.fromExperts H g.numLocalExperts g.topK maxNumSeqs).maxT)
    (hcap : ∀ e < g.numLocalExperts, ((g.decodeLaunch maxNumSeqs x fits).routed e).card ≤
      (g.decodeLaunch maxNumSeqs x fits).disp.maxM)
    (s : ℕ → DispatchState R H) (order : ℕ → List (ℕ × ℕ))
    (hr : ∀ τ < g.tpSize, Reachable (dispatchSystem (g.decodeLaunch maxNumSeqs x fits)) always (s τ))
    (hf : ∀ τ < g.tpSize, Finished (g.decodeLaunch maxNumSeqs x fits) (s τ))
    (ho : ∀ τ < g.tpSize, (order τ).Perm (g.decodeCombine τ x (s τ)).grid) {t : ℕ}
    (ht : t < x.numTokens) (h : Fin H) :
    g.tpReduce (fun τ => (g.decodeCombine τ x (s τ)).combine (order τ)) t h = g.computeLocalPrefill x t h := by
  refine Finset.sum_congr rfl fun τ hτ => ?_
  have hτ := Finset.mem_range.1 hτ
  have hd := bucketed_of_reachable (hr τ hτ) (hf τ hτ)
  dsimp only
  rw [combine_dispatched hd (ho τ hτ) ht, localPrefill_eq]
  refine Finset.sum_congr rfl fun k hk => ?_
  have hslot : 0 ≤ (s τ).slotMap t k ↔ 0 ≤ x.topkIds t k ∧ x.topkIds t k < (g.numLocalExperts : ℤ) :=
    hd.slot_nonneg_iff hcap ht (Finset.mem_range.1 hk)
  rw [choiceOut, Nat.zero_mul, Nat.zero_add]
  by_cases hvalid : 0 ≤ x.topkIds t k ∧ x.topkIds t k < (g.numLocalExperts : ℤ)
  · rw [if_pos (hslot.2 hvalid), if_pos ⟨by exact_mod_cast hvalid.1, hvalid.2⟩, mul_comm]
    simp
  · rw [if_neg fun hnonneg => hvalid (hslot.1 hnonneg), if_neg fun hrange =>
      hvalid ⟨by exact_mod_cast hrange.1, hrange.2⟩]
    exact (zero_mul _).symm

/-- One expert of one neuron; two TP ranks that differ in their weights. -/
def tinyExperts (epSize : ℕ) : GenericExperts ℤ 1 1 where
  silu := id
  numLocalExperts := 1
  topK := 1
  epSize := epSize
  tpSize := 2
  weights r τ := ⟨fun _ _ _ => 2, fun _ _ _ => r + τ + 1⟩

def tinyTokens (id : ℤ) : Tokens ℤ 1 := ⟨1, fun _ _ => 3, fun _ _ => id, fun _ _ => 5⟩

theorem tiny_fits :
    (tinyTokens 0).numTokens ≤ (LocalPaddedDispatcher.fromExperts 1 1 1 4 : LocalPaddedDispatcher 1).maxT := by
  decide

def tinyLaunch : Launch ℤ 1 := (tinyExperts 1).decodeLaunch 4 (tinyTokens 0) tiny_fits

theorem decode_eq_prefill_tiny : ∃ s : DispatchState ℤ 1,
    (tinyExperts 1).tpReduce (fun τ => ((tinyExperts 1).decodeCombine τ (tinyTokens 0) s).combine [(0, 0)]) 0 0 =
      (tinyExperts 1).computeLocalPrefill (tinyTokens 0) 0 0 := by
  have hcheck : (run (dispatchSystem tinyLaunch) always [0, 0, 0, 0] clearedState).map
      (fun s => decide (Finished tinyLaunch s)) = some true := by
    decide
  obtain ⟨s, hrun, hP⟩ := Option.map_eq_some_iff.1 hcheck
  have hinitial : (dispatchSystem tinyLaunch).initial clearedState :=
    ⟨fun _ => rfl, fun _ => rfl, fun _ _ _ => rfl, fun _ _ _ => rfl⟩
  have hgrid : [((0 : ℕ), (0 : ℕ))].Perm ((tinyExperts 1).decodeCombine 0 (tinyTokens 0) s).grid :=
    List.Perm.of_eq rfl
  have hcap : ∀ e < 1, (tinyLaunch.routed e).card ≤ tinyLaunch.disp.maxM := by decide
  exact ⟨s, decode_eq_prefill (g := tinyExperts 1) tiny_fits hcap (fun _ => s) (fun _ => [(0, 0)])
    (fun _ _ => (Reachable.initial hinitial).of_run hrun) (fun _ _ => of_decide_eq_true hP) (fun _ _ => hgrid)
    (by decide) 0⟩

/-! ### Expert parallelism -/

theorem choiceOut_other {r τ : ℕ} {id : ℤ} (x : Fin H → R)
    (hid : ¬ (((r * g.numLocalExperts : ℕ) : ℤ) ≤ id ∧
      id < ((r * g.numLocalExperts + g.numLocalExperts : ℕ) : ℤ))) :
    g.choiceOut r τ id x = fun _ => 0 := if_neg hid

/-- Every choice is made on the one rank that has its expert. -/
theorem sum_choiceOut (τ : ℕ) (id : ℤ) (x : Fin H → R) (h : Fin H) :
    ∑ r ∈ Finset.range g.epSize, g.choiceOut r τ id x h = g.merged.choiceOut 0 τ id x h := by
  by_cases hid : 0 ≤ id ∧ id < ((g.epSize * g.numLocalExperts : ℕ) : ℤ)
  · obtain ⟨n, rfl⟩ := Int.eq_ofNat_of_zero_le hid.1
    have hn : n < g.epSize * g.numLocalExperts := by exact_mod_cast hid.2
    have hpos : 0 < g.numLocalExperts := Nat.pos_of_ne_zero fun h0 => by simp [h0] at hn
    have hdecomp := Nat.div_add_mod' n g.numLocalExperts
    have hmod := Nat.mod_lt n hpos
    have howner : n / g.numLocalExperts < g.epSize := (Nat.div_lt_iff_lt_mul hpos).2 hn
    rw [Finset.sum_eq_single_of_mem (n / g.numLocalExperts) (Finset.mem_range.2 howner)]
    · rw [choiceOut, if_pos ⟨by omega, by omega⟩, choiceOut,
        if_pos ⟨by simp, by rw [Nat.zero_mul, Nat.zero_add]; exact hid.2⟩]
      have hlocal : (((n : ℕ) : ℤ) - (n / g.numLocalExperts * g.numLocalExperts : ℕ)).toNat =
        n % g.numLocalExperts := by
        omega
      have hglobal : (((n : ℕ) : ℤ) - (0 * g.merged.numLocalExperts : ℕ)).toNat = n := by simp
      rw [hlocal, hglobal]
      rfl
    · intro r _ hne
      refine congrFun (choiceOut_other x fun hr => hne ?_) h
      exact (Nat.div_eq_of_lt_le (by exact_mod_cast hr.1) (by rw [Nat.add_one_mul]; exact_mod_cast hr.2)).symm
  · rw [Finset.sum_eq_zero, choiceOut, if_neg fun hr => hid ⟨by simpa using hr.1, by
      have hlt := hr.2
      rwa [Nat.zero_mul, Nat.zero_add] at hlt⟩]
    intro r hr
    refine congrFun (choiceOut_other x fun hrange => hid ⟨le_trans (Int.natCast_nonneg _) hrange.1, ?_⟩) h
    have hle : (r + 1) * g.numLocalExperts ≤ g.epSize * g.numLocalExperts :=
      Nat.mul_le_mul_right _ (Finset.mem_range.1 hr)
    rw [Nat.add_one_mul] at hle
    exact lt_of_lt_of_le hrange.2 (by exact_mod_cast hle)

/-- The row of token `t` of rank `ρ` in the gathered tensors. -/
theorem gathered_row {x : ℕ → Tokens R H} {ρ t : ℕ} (hρ : ρ < g.epSize) (ht : t < (x ρ).numTokens) :
    (g.gathered x).hiddenStates (ρ * g.maxCount x + t) = (x ρ).hiddenStates t ∧
      (g.gathered x).topkIds (ρ * g.maxCount x + t) = (x ρ).topkIds t ∧
      (g.gathered x).topkWeights (ρ * g.maxCount x + t) = (x ρ).topkWeights t := by
  have hle : (x ρ).numTokens ≤ g.maxCount x :=
    Finset.le_sup (f := fun r => (x r).numTokens) (Finset.mem_range.2 hρ)
  have hdiv : (ρ * g.maxCount x + t) / g.maxCount x = ρ := by
    rw [Nat.mul_comm, Nat.mul_add_div (by omega), Nat.div_eq_of_lt (by omega), Nat.add_zero]
  have hmod : (ρ * g.maxCount x + t) % g.maxCount x = t := by
    rw [Nat.mul_comm, Nat.mul_add_mod, Nat.mod_eq_of_lt (by omega)]
  simp only [gathered, hdiv, hmod, ht, if_true, and_self]

/-- **Expert parallelism computes what one rank with all the experts computes**, for every number of tokens on every
rank. -/
theorem computeEp_eq_prefill (g : GenericExperts R H I) (x : ℕ → Tokens R H) {ρ t : ℕ} (hρ : ρ < g.epSize)
    (ht : t < (x ρ).numTokens) (h : Fin H) : g.computeEp x ρ t h = g.merged.computeLocalPrefill (x ρ) t h := by
  obtain ⟨hhidden, hids, hweights⟩ := gathered_row hρ ht
  unfold computeEp computeLocalPrefill tpReduce
  refine Finset.sum_congr rfl fun τ _ => ?_
  dsimp only
  rw [localPrefill_eq]
  calc ∑ r ∈ Finset.range g.epSize, g.localPrefill r τ (g.gathered x) (ρ * g.maxCount x + t) h
      = ∑ r ∈ Finset.range g.epSize, ∑ k ∈ Finset.range g.topK,
          g.choiceOut r τ ((x ρ).topkIds t k) ((x ρ).hiddenStates t) h * (x ρ).topkWeights t k :=
        Finset.sum_congr rfl fun r _ => by rw [localPrefill_eq, hhidden, hids, hweights]
    _ = ∑ k ∈ Finset.range g.topK, ∑ r ∈ Finset.range g.epSize,
          g.choiceOut r τ ((x ρ).topkIds t k) ((x ρ).hiddenStates t) h * (x ρ).topkWeights t k := Finset.sum_comm
    _ = ∑ k ∈ Finset.range g.merged.topK,
          g.merged.choiceOut 0 τ ((x ρ).topkIds t k) ((x ρ).hiddenStates t) h * (x ρ).topkWeights t k :=
        Finset.sum_congr rfl fun k _ => by rw [← Finset.sum_mul, sum_choiceOut]

/-- The second rank's token goes to the expert of the first. -/
theorem computeEp_eq_prefill_tiny :
    (tinyExperts 2).computeEp (fun r => tinyTokens (1 - r)) 1 0 0 =
      (tinyExperts 2).merged.computeLocalPrefill (tinyTokens 0) 0 0 :=
  computeEp_eq_prefill (tinyExperts 2) (fun r => tinyTokens (1 - r)) (by decide) (by decide) 0

end GenericExperts

end NanoEngine.Experts
