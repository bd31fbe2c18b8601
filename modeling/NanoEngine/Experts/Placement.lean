import Mathlib.Order.Interval.Finset.Nat
import NanoEngine.Experts.Hierarchy

/-!
# NanoEngine.Experts.Placement — the result of a rebalancing is a placement

* `scatterSlots_row`: a row of `log2phy` lists the slots of the expert, and `-1` after them.
* `Consistent`, `OnNodes`: what the result says about slots, and about nodes and GPUs.
* `rebalanceExperts_consistent`
-/

namespace NanoEngine.Experts

open Updates

theorem getElem?_reshape {α : Type*} {n w i : ℕ} (hi : i < n) (l : List α) :
    (reshape n w l)[i]? = some ((l.drop (i * w)).take w) := by
  rw [reshape, List.getElem?_map, List.getElem?_range hi, Option.map_some]

/-- The row of an expert: its slots by rank, then `-1`. -/
theorem scatterSlots_row {r : Replicas} {numLogicalExperts maxlogcnt e : ℕ} (h : Placed r)
    (hmax : ∀ n ∈ r.logcnt, n ≤ maxlogcnt) (he : e < numLogicalExperts) :
    ∃ slots : List ℕ, (scatterSlots numLogicalExperts maxlogcnt r.phy2log.length r)[e]? =
        some (slots.map Int.ofNat ++ List.replicate (maxlogcnt - slots.length) (-1)) ∧
      slots.length = r.logcnt.getD e 0 ∧ slots.Nodup ∧ ∀ p : ℕ, p ∈ slots ↔ r.phy2log[p]? = some e := by
  have hle : ∀ e, r.logcnt.getD e 0 ≤ maxlogcnt := by
    intro e
    rcases Nat.lt_or_ge e r.logcnt.length with hlt | hge
    · rw [List.getD_eq_getElem _ _ hlt]
      exact hmax _ (List.getElem_mem hlt)
    · rw [List.getD_eq_default _ _ hge]
      exact Nat.zero_le _
  obtain ⟨indices, hindices⟩ : ∃ l, List.zipWith (fun e k => e * maxlogcnt + k) r.phy2log r.rank =
    l := ⟨_, rfl⟩
  have hzip : indices = (r.phy2log.zip r.rank).map fun x => x.1 * maxlogcnt + x.2 := by
    rw [← hindices, List.zip, List.map_zipWith]
  have hrank : ∀ x ∈ r.phy2log.zip r.rank, x.2 < maxlogcnt := fun x hx =>
    ((h.mem_iff x.1 x.2).1 hx).trans_le (hle x.1)
  have hnodup : indices.Nodup := by
    rw [hzip]
    refine List.Nodup.map_on (fun x hx y hy hxy => ?_) h.nodup
    obtain ⟨hfst, hsnd⟩ := slot_inj (hrank x hx) (hrank y hy) hxy
    exact Prod.ext hfst hsnd
  -- the slots of `e`, one for each of its ranks
  choose slot hslot hslotRank using fun k (hk : k < r.logcnt.getD e 0) => h.exists_slot hk
  obtain ⟨slots, hslots, hget⟩ : ∃ slots : List ℕ, slots.length = r.logcnt.getD e 0 ∧
      ∀ k p : ℕ, slots[k]? = some p ↔ ∃ hk, slot k hk = p := by
    refine ⟨List.ofFn fun k : Fin (r.logcnt.getD e 0) => slot k k.2, List.length_ofFn, fun k p => ?_⟩
    rw [List.getElem?_eq_some_iff]
    simp
  refine ⟨slots, ?_, hslots, ?_, fun p => ⟨fun hp => ?_, fun hp => ?_⟩⟩
  · rw [scatterSlots, hindices, getElem?_reshape he]
    refine congrArg some (List.ext_getElem? fun k => ?_)
    have hlt : ∀ {k : ℕ}, k < maxlogcnt →
      e * maxlogcnt + k < (List.replicate (numLogicalExperts * maxlogcnt) (-1 : ℤ)).length :=
      fun hk => by rw [List.length_replicate]; exact slot_lt he hk
    rw [List.getElem?_take, List.getElem?_drop]
    split_ifs with hk
    · rcases Nat.lt_or_ge k (r.logcnt.getD e 0) with hcnt | hcnt
      · -- the slot of the replica is written
        have hp := (hget k _).2 ⟨hcnt, rfl⟩
        have hwrite : indices[slot k hcnt]? = some (e * maxlogcnt + k) := by
          have hx : (r.phy2log.zip r.rank)[slot k hcnt]? = some (e, k) :=
            List.getElem?_zip_eq_some.2 ⟨hslot k hcnt, hslotRank k hcnt⟩
          rw [hzip, List.getElem?_map, hx, Option.map_some]
        have hvalue : ((List.range r.phy2log.length).map Int.ofNat)[slot k hcnt]? = some (Int.ofNat (slot k hcnt)) := by
          rw [List.getElem?_map, List.getElem?_range (List.getElem?_eq_some_iff.1 (hslot k hcnt)).1, Option.map_some]
        rw [getElem?_scatter hnodup hwrite hvalue (hlt hk), List.getElem?_append_left (by simpa [hslots] using hcnt),
          List.getElem?_map, hp, Option.map_some]
      · -- no replica has this rank
        have hskip : e * maxlogcnt + k ∉ indices := by
          rw [hzip]
          intro hmem
          obtain ⟨⟨e', k'⟩, hx, heq⟩ := List.mem_map.1 hmem
          obtain ⟨rfl, rfl⟩ := slot_inj (hrank _ hx) hk heq
          exact absurd ((h.mem_iff e' k').1 hx) (Nat.not_lt.2 hcnt)
        rw [getElem?_scatter_of_notMem hskip, List.getElem?_append_right (by simpa [hslots] using hcnt),
          List.getElem?_replicate, List.getElem?_replicate, if_pos (by simpa using hlt hk), if_pos]
        rw [List.length_map, hslots]
        omega
    · rw [eq_comm, List.getElem?_eq_none_iff, List.length_append, List.length_map, List.length_replicate, hslots]
      have := hle e
      omega
  · refine List.nodup_iff_getElem?_ne_getElem?.2 fun i j hij hj heq => ?_
    obtain ⟨p, hp⟩ : ∃ p, slots[j]? = some p := ⟨_, List.getElem?_eq_getElem hj⟩
    obtain ⟨hi', rfl⟩ := (hget i p).1 (heq.trans hp)
    obtain ⟨hj', hsame⟩ := (hget j _).1 hp
    have hrankj := hslotRank j hj'
    rw [hsame, hslotRank i hi'] at hrankj
    exact hij.ne (Option.some.inj hrankj)
  · obtain ⟨k, hk⟩ := List.mem_iff_getElem?.1 hp
    obtain ⟨hlt, rfl⟩ := (hget k p).1 hk
    exact hslot k hlt
  · obtain ⟨k, hk, hlt⟩ := h.exists_rank hp
    have hsame := h.slot_unique (hslot k hlt) (hslotRank k hlt) hp hk
    exact List.mem_of_getElem? ((hget k p).2 ⟨hlt, hsame⟩)

/-- Slots and experts of a layer say the same. -/
structure Consistent (numLogicalExperts numReplicas : ℕ) (plan : LayerPlan) : Prop where
  length_phy2log : plan.phy2log.length = numReplicas
  length_log2phy : plan.log2phy.length = numLogicalExperts
  length_logcnt : plan.logcnt.length = numLogicalExperts
  one_le : ∀ n ∈ plan.logcnt, 1 ≤ n
  sum : plan.logcnt.sum = numReplicas
  row : ∀ e < numLogicalExperts, ∃ (slots : List ℕ) (padding : ℕ),
    plan.log2phy[e]? = some (slots.map Int.ofNat ++ List.replicate padding (-1)) ∧
      slots.length = plan.logcnt.getD e 0 ∧ slots.Nodup ∧ ∀ p : ℕ, p ∈ slots ↔ plan.phy2log[p]? = some e

/-- The slots of an expert are on the GPUs of one node, and the GPUs have the same number of slots. -/
structure OnNodes (numReplicas numNodes numGpus : ℕ) (plan : LayerPlan) : Prop where
  node : ∀ p q e : ℕ, plan.phy2log[p]? = some e → plan.phy2log[q]? = some e →
    computeGpuIdOfPhysicalExpert p (numReplicas / numGpus) / (numGpus / numNodes) =
      computeGpuIdOfPhysicalExpert q (numReplicas / numGpus) / (numGpus / numNodes)
  gpu : ∀ g < numGpus, ((Finset.range plan.phy2log.length).filter fun p =>
    computeGpuIdOfPhysicalExpert p (numReplicas / numGpus) = g).card = numReplicas / numGpus

theorem card_filter_div {n w g : ℕ} (hw : 0 < w) (hg : g < n) :
    ((Finset.range (n * w)).filter fun p => p / w = g).card = w := by
  have hIco : ((Finset.range (n * w)).filter fun p => p / w = g) = Finset.Ico (g * w) ((g + 1) * w) := by
    ext p
    have hle : (g + 1) * w ≤ n * w := Nat.mul_le_mul_right w hg
    rw [Finset.mem_filter, Finset.mem_range, Finset.mem_Ico, Nat.div_eq_iff hw, Nat.succ_mul] at *
    omega
  rw [hIco, Nat.card_Ico, Nat.succ_mul, Nat.add_sub_cancel_left]

/-- What `rebalance_experts` asks of the numbers. -/
structure Divides (numLogicalExperts numReplicas numGroups numNodes numGpus : ℕ) : Prop where
  experts : numLogicalExperts % numGroups = 0
  gpus : numGpus % numNodes = 0
  replicas : numReplicas % numGpus = 0

section layers

variable {numReplicas numGroups numNodes numGpus : ℕ}

/-- A layer that is placed, on the nodes if the groups are. -/
structure LayerPlaced (numLogicalExperts numReplicas numGroups numNodes : ℕ) (r : Replicas) : Prop where
  placed : Placed r
  length_phy : r.phy2log.length = numReplicas
  length_cnt : r.logcnt.length = numLogicalExperts
  node : numGroups % numNodes = 0 → ∀ p q e : ℕ, r.phy2log[p]? = some e → r.phy2log[q]? = some e →
    p / (numReplicas / numNodes) = q / (numReplicas / numNodes)

theorem layer_placed (c : Choices) {row : List ℚ} (hpos : 0 < row.length) (hle : row.length ≤ numReplicas)
    (hgroups : 0 < numGroups) (hnodes : 0 < numNodes) (hgpus : 0 < numGpus)
    (hdiv : numGroups % numNodes = 0 → Divides row.length numReplicas numGroups numNodes numGpus) :
    ∃ r, (if numGroups % numNodes = 0 then rebalanceExpertsHierarchical c row numReplicas numGroups numNodes numGpus
      else replicateExperts c row numReplicas) = some r ∧
        LayerPlaced row.length numReplicas numGroups numNodes r := by
  split_ifs with hgroup
  · obtain ⟨hlog, hgpu, hphy⟩ := hdiv hgroup
    obtain ⟨r, hr, hplaced, hlen, hcnt, hnode⟩ :=
      rebalanceExpertsHierarchical_spec c hpos hle hgroups hnodes hgpus hlog hgroup hgpu hphy
    exact ⟨r, hr, hplaced, hlen, hcnt, fun _ => hnode⟩
  · obtain ⟨r, hr, hplaced, hlen, hcnt⟩ := replicateExperts_spec c hpos hle
    exact ⟨r, hr, hplaced, hlen, hcnt, fun h => absurd h hgroup⟩

/-- No experts, no counts. -/
theorem layer_empty (c : Choices) {r : Replicas}
    (hr : (if numGroups % numNodes = 0 then rebalanceExpertsHierarchical c [] numReplicas numGroups numNodes numGpus
      else replicateExperts c [] numReplicas) = some r) : r.logcnt = [] := by
  split_ifs at hr with hgroup
  · simp only [rebalanceExpertsHierarchical, List.length_nil, Nat.zero_div, List.range_zero, List.map_nil,
      Option.bind_eq_bind] at hr
    split_ifs at hr
    · cases hr
    · cases hr
    · cases hr
    · obtain ⟨packs, _, hr⟩ := Option.bind_eq_some_iff.1 hr
      obtain ⟨tokensPerMlog, _, hr⟩ := Option.bind_eq_some_iff.1 hr
      obtain ⟨nodes, _, hr⟩ := Option.bind_eq_some_iff.1 hr
      obtain ⟨pphy2log, _, hr⟩ := Option.bind_eq_some_iff.1 hr
      obtain ⟨logcnt, hgather, hr⟩ := Option.bind_eq_some_iff.1 hr
      obtain rfl := Option.some.inj hr
      exact List.eq_nil_of_length_eq_zero ((length_gather hgather).trans (by simp))
  · unfold replicateExperts at hr
    dsimp only at hr
    split_ifs at hr with hphy
    obtain rfl : numReplicas = 0 := by
      rw [List.length_nil] at hphy
      omega
    exact (congrArg Replicas.logcnt (Option.some.inj hr)).symm

/-- The plan of a placed layer. -/
theorem LayerPlaced.consistent {numLogicalExperts maxlogcnt : ℕ} {r : Replicas}
    (h : LayerPlaced numLogicalExperts numReplicas numGroups numNodes r) (hmax : ∀ n ∈ r.logcnt, n ≤ maxlogcnt) :
    Consistent numLogicalExperts numReplicas
      ⟨r.phy2log, scatterSlots numLogicalExperts maxlogcnt numReplicas r, r.logcnt⟩ := by
  refine ⟨h.length_phy, length_reshape _ _ _, h.length_cnt, h.placed.pos,
    h.placed.sum.trans h.length_phy, fun e he => ?_⟩
  obtain ⟨slots, hrow, hslots, hnodup, hmem⟩ := scatterSlots_row h.placed hmax he
  rw [h.length_phy] at hrow
  exact ⟨slots, _, hrow, hslots, hnodup, hmem⟩

theorem LayerPlaced.onNodes {numLogicalExperts : ℕ} {r : Replicas} {log2phy : List (List ℤ)}
    (h : LayerPlaced numLogicalExperts numReplicas numGroups numNodes r) (hgroup : numGroups % numNodes = 0)
    (hpos : 0 < numReplicas) (hgpus : 0 < numGpus) (hgpu : numGpus % numNodes = 0) (hphy : numReplicas % numGpus = 0) :
    OnNodes numReplicas numNodes numGpus ⟨r.phy2log, log2phy, r.logcnt⟩ := by
  have hwidth : numReplicas / numGpus * (numGpus / numNodes) = numReplicas / numNodes := by
    rw [Nat.div_mul_div_comm (Nat.dvd_of_mod_eq_zero hphy) (Nat.dvd_of_mod_eq_zero hgpu), Nat.mul_comm numReplicas,
      Nat.mul_div_mul_left _ _ hgpus]
  refine ⟨fun p q e hp hq => ?_, fun g hg => ?_⟩
  · unfold computeGpuIdOfPhysicalExpert
    rw [Nat.div_div_eq_div_mul, Nat.div_div_eq_div_mul, hwidth]
    exact h.node hgroup p q e hp hq
  · have hdvd : numGpus ∣ numReplicas := Nat.dvd_of_mod_eq_zero hphy
    have hcard := card_filter_div (Nat.div_pos (Nat.le_of_dvd hpos hdvd) hgpus) hg
    rw [Nat.mul_div_cancel' hdvd] at hcard
    rw [h.length_phy]
    exact hcard

theorem rebalanceExperts_eq (c : Choices) (weight : Weights) (hnodes : 0 < numNodes) :
    rebalanceExperts c weight numReplicas numGroups numNodes numGpus =
      (weight.rows.mapM fun row =>
        if numGroups % numNodes = 0 then rebalanceExpertsHierarchical c row numReplicas numGroups numNodes numGpus
        else replicateExperts c row numReplicas).bind fun layers =>
          (layers.flatMap Replicas.logcnt).max?.bind fun maxlogcnt => some (layers.map fun r =>
            ⟨r.phy2log, scatterSlots weight.numLogicalExperts maxlogcnt numReplicas r, r.logcnt⟩) := by
  unfold rebalanceExperts
  rw [if_neg hnodes.ne']
  rfl

/-- The result exists if there are layers and experts, and is a placement. -/
theorem rebalanceExperts_consistent (c : Choices) (weight : Weights) (hle : weight.numLogicalExperts ≤ numReplicas)
    (hgroups : 0 < numGroups) (hnodes : 0 < numNodes) (hgpus : 0 < numGpus)
    (hdiv : numGroups % numNodes = 0 → Divides weight.numLogicalExperts numReplicas numGroups numNodes numGpus) :
    ((∃ plans, rebalanceExperts c weight numReplicas numGroups numNodes numGpus = some plans) ↔
        0 < weight.numLayers ∧ 0 < weight.numLogicalExperts) ∧
      ∀ plans, rebalanceExperts c weight numReplicas numGroups numNodes numGpus = some plans →
        plans.length = weight.numLayers ∧ ∀ plan ∈ plans, Consistent weight.numLogicalExperts numReplicas plan ∧
          (numGroups % numNodes = 0 → OnNodes numReplicas numNodes numGpus plan) := by
  rw [rebalanceExperts_eq c weight hnodes]
  by_cases hpos : 0 < weight.numLayers ∧ 0 < weight.numLogicalExperts
  · obtain ⟨hlayers, hexperts⟩ := hpos
    obtain ⟨layers, hlayersOk, hlen, hall⟩ := mapM_of_forall (l := weight.rows)
      (Q := LayerPlaced weight.numLogicalExperts numReplicas numGroups numNodes) fun row hrow => by
        have hrowLen := weight.length_row row hrow
        rw [← hrowLen] at hexperts hle hdiv ⊢
        exact layer_placed c hexperts hle hgroups hnodes hgpus hdiv
    rw [weight.length_rows] at hlen
    -- some expert of some layer has a count
    obtain ⟨m, hm⟩ : ∃ m, (layers.flatMap Replicas.logcnt).max? = some m := by
      obtain ⟨r, hr⟩ := List.exists_mem_of_length_pos (hlen.symm ▸ hlayers)
      obtain ⟨n, hn⟩ := List.exists_mem_of_length_pos ((hall r hr).length_cnt.symm ▸ hexperts)
      exact Option.isSome_iff_exists.1 (List.isSome_max?_of_mem (List.mem_flatMap.2 ⟨r, hr, hn⟩))
    have hmax : ∀ r ∈ layers, ∀ n ∈ r.logcnt, n ≤ m := fun r hr n hn =>
      (List.max?_eq_some_iff.1 hm).2 n (List.mem_flatMap.2 ⟨r, hr, hn⟩)
    rw [hlayersOk, Option.bind_some, hm, Option.bind_some]
    refine ⟨iff_of_true ⟨_, rfl⟩ ⟨hlayers, hexperts⟩, fun plans hplans => ?_⟩
    obtain rfl := Option.some.inj hplans
    refine ⟨by rw [List.length_map, hlen], fun plan hplan => ?_⟩
    obtain ⟨r, hr, rfl⟩ := List.mem_map.1 hplan
    refine ⟨(hall r hr).consistent (hmax r hr), fun hgroup => ?_⟩
    exact (hall r hr).onNodes hgroup (hexperts.trans_le hle) hgpus (hdiv hgroup).gpus (hdiv hgroup).replicas
  · -- no counts, no maximum
    have hnone : ∀ plans, ¬ ((weight.rows.mapM fun row =>
        if numGroups % numNodes = 0 then rebalanceExpertsHierarchical c row numReplicas numGroups numNodes numGpus
        else replicateExperts c row numReplicas).bind fun layers =>
          (layers.flatMap Replicas.logcnt).max?.bind fun maxlogcnt => some (layers.map fun r =>
            (⟨r.phy2log, scatterSlots weight.numLogicalExperts maxlogcnt numReplicas r, r.logcnt⟩ : LayerPlan))) =
              some plans := by
      intro plans hplans
      obtain ⟨layers, hlayersOk, hplans⟩ := Option.bind_eq_some_iff.1 hplans
      obtain ⟨m, hm, _⟩ := Option.bind_eq_some_iff.1 hplans
      obtain ⟨r, hr, hn⟩ := List.mem_flatMap.1 (List.max?_eq_some_iff.1 hm).1
      have hmap := mapM_eq_some_iff.1 hlayersOk
      obtain ⟨row, hrow, hlayer⟩ := List.mem_map.1 (hmap ▸ List.mem_map_of_mem hr)
      have hrows : 0 < weight.numLayers := weight.length_rows ▸ List.length_pos_of_mem hrow
      have hempty : row = [] := List.eq_nil_of_length_eq_zero (by
        rw [weight.length_row row hrow]
        exact Nat.eq_zero_of_not_pos fun hexperts => hpos ⟨hrows, hexperts⟩)
      rw [hempty] at hlayer
      rw [layer_empty c hlayer] at hn
      cases hn
    exact ⟨iff_of_false (fun ⟨plans, hplans⟩ => hnone plans hplans) hpos, fun plans hplans =>
      absurd hplans (hnone plans)⟩

end layers

/-- A stable sort, and the first of the maxima. -/
def stableChoices : Choices where
  sortDescending w := (List.range w.length).mergeSort fun i j => decide (w.getD j 0 ≤ w.getD i 0)
  maxIndex w := ((List.range w.length).argmax fun i => w.getD i 0).getD 0
  sort_perm w := List.mergeSort_perm _ _
  sort_sorted w := by
    have htrans : ∀ i j k, decide (w.getD j 0 ≤ w.getD i 0) → decide (w.getD k 0 ≤ w.getD j 0) →
        decide (w.getD k 0 ≤ w.getD i 0) := fun i j k hij hjk =>
      decide_eq_true ((of_decide_eq_true hjk).trans (of_decide_eq_true hij))
    have htotal : ∀ i j, decide (w.getD j 0 ≤ w.getD i 0) || decide (w.getD i 0 ≤ w.getD j 0) := fun i j => by
      simpa using le_total (w.getD j 0) (w.getD i 0)
    exact (List.pairwise_mergeSort htrans htotal _).imp fun h => of_decide_eq_true h
  maxIndex_lt w hw := by
    cases hmax : (List.range w.length).argmax fun i => w.getD i 0 with
    | none => exact absurd (List.length_eq_zero_iff.1 (List.range_eq_nil.1 (List.argmax_eq_none.1 hmax))) hw
    | some i => exact List.mem_range.1 (List.argmax_mem hmax)
  le_maxIndex w x hx := by
    obtain ⟨j, hj, rfl⟩ := List.mem_iff_getElem.1 hx
    cases hmax : (List.range w.length).argmax fun i => w.getD i 0 with
    | none => exact absurd (List.range_eq_nil.1 (List.argmax_eq_none.1 hmax)) (Nat.ne_zero_of_lt hj)
    | some i =>
      rw [← List.getD_eq_getElem w 0 hj]
      exact List.le_of_mem_argmax (f := fun i => w.getD i 0) (List.mem_range.2 hj) hmax

def fourExperts : Weights where
  numLayers := 1
  numLogicalExperts := 4
  rows := [[3, 1, 2, 2]]
  length_rows := rfl
  length_row := by simp

/-- Four experts in two groups, six slots on two GPUs of two nodes. -/
theorem rebalanceExperts_consistent_four :
    ∃ plans, rebalanceExperts stableChoices fourExperts 6 2 2 2 = some plans ∧
    plans.length = 1 ∧ ∀ plan ∈ plans, Consistent 4 6 plan ∧ OnNodes 6 2 2 plan := by
  have hle : fourExperts.numLogicalExperts ≤ 6 := by decide
  have hdiv : 2 % 2 = 0 → Divides fourExperts.numLogicalExperts 6 2 2 2 := fun _ => ⟨rfl, rfl, rfl⟩
  obtain ⟨hexists, hplans⟩ :=
    rebalanceExperts_consistent stableChoices fourExperts hle (by decide) (by decide) (by decide) hdiv
  obtain ⟨plans, hsome⟩ := hexists.2 ⟨by decide, by decide⟩
  obtain ⟨hlen, hall⟩ := hplans plans hsome
  exact ⟨plans, hsome, hlen, fun plan hplan => ⟨(hall plan hplan).1, (hall plan hplan).2 rfl⟩⟩

end NanoEngine.Experts
