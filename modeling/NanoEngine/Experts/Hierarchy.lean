import Mathlib.Data.List.GetD
import NanoEngine.Experts.Replicas

/-!
# NanoEngine.Experts.Hierarchy — the replicas of an expert lie on one node

* `Placed.concat`, `joinNodes_spec`: the slots of the nodes, one node after another.
* `Placed.relabel`: the slots under the numbers the experts had before.
* `rebalanceExpertsHierarchical_spec`
-/

namespace NanoEngine.Experts

open Updates

/-- The slots of one more node, whose experts follow. -/
theorem Placed.concat {r r' : Replicas} (h : Placed r) (h' : Placed r') :
    Placed ⟨r.phy2log ++ r'.phy2log.map (· + r.logcnt.length), r.rank ++ r'.rank, r.logcnt ++ r'.logcnt⟩ := by
  have hzip : (r.phy2log ++ r'.phy2log.map (· + r.logcnt.length)).zip (r.rank ++ r'.rank) =
      r.phy2log.zip r.rank ++ (r'.phy2log.zip r'.rank).map (Prod.map (· + r.logcnt.length) id) := by
    rw [List.zip_append h.length_rank.symm, List.zip_map_left]
  have hcnt : ∀ e, (r.logcnt ++ r'.logcnt).getD e 0 =
      if e < r.logcnt.length then r.logcnt.getD e 0 else r'.logcnt.getD (e - r.logcnt.length) 0 := by
    intro e
    split_ifs with he
    · exact List.getD_append _ _ _ _ he
    · exact List.getD_append_right _ _ _ _ (Nat.le_of_not_lt he)
  have hlt : ∀ x ∈ r.phy2log.zip r.rank, x.1 < r.logcnt.length := fun x hx => h.lt_of_mem (List.of_mem_zip hx).1
  refine ⟨?_, ?_, fun e k => ?_, fun n hn => ?_, ?_⟩
  · simp only [List.length_append, List.length_map, h.length_rank, h'.length_rank]
  · rw [hzip, List.nodup_append]
    refine ⟨h.nodup, h'.nodup.map ?_, fun x hx y hy hxy => ?_⟩
    · rintro ⟨e, k⟩ ⟨e', k'⟩ heq
      obtain ⟨he, hk⟩ := Prod.mk.inj heq
      exact Prod.ext (Nat.add_right_cancel he) hk
    · obtain ⟨z, _, rfl⟩ := List.mem_map.1 hy
      have := hlt x hx
      rw [hxy] at this
      exact absurd this (Nat.not_lt.2 (Nat.le_add_left _ _))
  -- the replicas of an expert are all in the half that its number falls in
  · rw [hzip, List.mem_append, hcnt, List.mem_map]
    split_ifs with he
    · rw [← h.mem_iff]
      refine or_iff_left ?_
      rintro ⟨z, _, heq⟩
      exact absurd he (Nat.not_lt.2 ((Prod.mk.inj heq).1 ▸ Nat.le_add_left _ _))
    · rw [← h'.mem_iff]
      constructor
      · rintro (hx | ⟨z, hz, heq⟩)
        · exact absurd (hlt _ hx) he
        · obtain ⟨rfl, rfl⟩ := Prod.mk.inj heq
          rwa [Nat.add_sub_cancel]
      · intro hz
        exact .inr ⟨_, hz, Prod.ext (Nat.sub_add_cancel (Nat.le_of_not_lt he)) rfl⟩
  · rcases List.mem_append.1 hn with hn | hn
    · exact h.pos n hn
    · exact h'.pos n hn
  · simp only [List.sum_append, h.sum, h'.sum, List.length_append, List.length_map]

/-- The slots of the nodes, one node after another; `perNode` experts are on each. -/
def joinNodes (perNode : ℕ) (nodes : List Replicas) : Replicas :=
  ⟨nodes.zipIdx.flatMap fun x => x.1.phy2log.map (· + x.2 * perNode), nodes.flatMap Replicas.rank,
    nodes.flatMap Replicas.logcnt⟩

/-- `n` nodes, each with `slots` slots and `perNode` experts. -/
structure Joined (slots perNode n : ℕ) (r : Replicas) : Prop where
  placed : Placed r
  length_phy : r.phy2log.length = n * slots
  length_cnt : r.logcnt.length = n * perNode
  node : ∀ p m : ℕ, r.phy2log[p]? = some m → m / perNode = p / slots

theorem joinNodes_spec {slots perNode : ℕ} {nodes : List Replicas}
    (h : ∀ r ∈ nodes, Placed r ∧ r.phy2log.length = slots ∧ r.logcnt.length = perNode) :
    Joined slots perNode nodes.length (joinNodes perNode nodes) := by
  induction nodes using List.reverseRecOn with
  | nil =>
    refine ⟨⟨rfl, List.nodup_nil, fun e k => ?_, fun n hn => (List.not_mem_nil hn).elim, rfl⟩,
      ?_, ?_, fun p m hp => ?_⟩
    · exact ⟨fun hx => (List.not_mem_nil hx).elim, fun hk => absurd hk (Nat.not_lt_zero k)⟩
    · exact (Nat.zero_mul slots).symm
    · exact (Nat.zero_mul perNode).symm
    · cases hp
  | append_singleton nodes r ih =>
    have hold := ih fun r' hr' => h r' (List.mem_append_left _ hr')
    obtain ⟨hr, hslots, hcnt⟩ := h r (List.mem_append_right _ (List.mem_singleton_self r))
    have hjoin : joinNodes perNode (nodes ++ [r]) =
        ⟨(joinNodes perNode nodes).phy2log ++ r.phy2log.map (· + nodes.length * perNode),
          (joinNodes perNode nodes).rank ++ r.rank, (joinNodes perNode nodes).logcnt ++ r.logcnt⟩ := by
      simp only [joinNodes, List.zipIdx_append, List.flatMap_append, List.zipIdx_singleton, List.flatMap_singleton,
        Nat.zero_add]
    rw [hjoin, ← hold.length_cnt]
    refine ⟨hold.placed.concat hr, ?_, ?_, fun p m hp => ?_⟩
    · simp only [List.length_append, List.length_map, hold.length_phy, hslots, List.length_singleton, Nat.succ_mul]
    · simp only [List.length_append, hold.length_cnt, hcnt, List.length_singleton, Nat.succ_mul]
    · dsimp only at hp
      rcases Nat.lt_or_ge p (joinNodes perNode nodes).phy2log.length with hlt | hge
      · rw [List.getElem?_append_left hlt] at hp
        exact hold.node p m hp
      · rw [List.getElem?_append_right hge, List.getElem?_map] at hp
        obtain ⟨e, he, rfl⟩ := Option.map_eq_some_iff.1 hp
        have hlt : p - (joinNodes perNode nodes).phy2log.length < slots := hslots ▸ (List.getElem?_eq_some_iff.1 he).1
        have hep : e < perNode := hcnt ▸ hr.lt_of_mem (List.mem_of_getElem? he)
        rw [hold.length_phy] at hge hlt
        obtain ⟨q, rfl⟩ := Nat.exists_eq_add_of_le hge
        rw [Nat.add_sub_cancel_left] at hlt
        rw [hold.length_cnt, Nat.add_comm e, Nat.mul_comm nodes.length perNode, Nat.mul_comm nodes.length slots,
          Nat.mul_add_div (Nat.zero_lt_of_lt hep), Nat.mul_add_div (Nat.zero_lt_of_lt hlt), Nat.div_eq_of_lt hep,
          Nat.div_eq_of_lt hlt]

/-- The experts under their own numbers: expert `e` was the expert `perm[e]` of the row. -/
theorem Placed.relabel {r : Replicas} (h : Placed r) {perm : List ℕ}
    (hperm : perm.Perm (List.range r.logcnt.length)) :
    ∃ phy2log logcnt, gather (inverse perm) r.phy2log = some phy2log ∧ gather r.logcnt perm = some logcnt ∧
      Placed ⟨phy2log, r.rank, logcnt⟩ ∧ phy2log.length = r.phy2log.length ∧ logcnt.length = r.logcnt.length ∧
      ∀ p e : ℕ, phy2log[p]? = some e → ∃ m, r.phy2log[p]? = some m ∧ perm[e]? = some m := by
  have hlen : (inverse perm).length = r.logcnt.length := by
    rw [length_inverse, hperm.length_eq, List.length_range]
  obtain ⟨phy2log, hphy⟩ := gather_of_lt (l := inverse perm) fun m hm => hlen.symm ▸ h.lt_of_mem hm
  obtain ⟨logcnt, hcnt, hcntPerm⟩ := Updates.gather_perm hperm
  have hphyLen : phy2log.length = r.phy2log.length := length_gather hphy
  -- slot by slot: the new number of a slot is the place of its old one in `perm`
  have hslot : ∀ {p e : ℕ}, phy2log[p]? = some e ↔ ∃ m, r.phy2log[p]? = some m ∧ perm[e]? = some m := by
    intro p e
    constructor
    · intro hp
      have hlt : p < r.phy2log.length := hphyLen ▸ (List.getElem?_eq_some_iff.1 hp).1
      obtain ⟨m, hm⟩ : ∃ m, r.phy2log[p]? = some m := ⟨_, List.getElem?_eq_getElem hlt⟩
      have hmlt : m < (inverse perm).length := hlen.symm ▸ h.lt_of_mem (List.mem_of_getElem? hm)
      rw [getElem?_gather hphy hm hmlt] at hp
      exact ⟨m, hm, (getElem?_of_inverse hperm hp).2⟩
    · rintro ⟨m, hm, he⟩
      have hmlt : m < (inverse perm).length := hlen.symm ▸ h.lt_of_mem (List.mem_of_getElem? hm)
      rw [getElem?_gather hphy hm hmlt]
      exact getElem?_inverse hperm he
  have hcntLen : logcnt.length = r.logcnt.length := hcntPerm.length_eq
  have hgetD : ∀ {e m : ℕ}, perm[e]? = some m → logcnt.getD e 0 = r.logcnt.getD m 0 := by
    intro e m he
    have hm : m < r.logcnt.length := List.mem_range.1 (hperm.mem_iff.1 (List.mem_of_getElem? he))
    rw [List.getD_eq_getElem?_getD, List.getD_eq_getElem?_getD, getElem?_gather hcnt he hm]
  have hmem : ∀ {e k : ℕ}, (e, k) ∈ phy2log.zip r.rank ↔
    ∃ m, (m, k) ∈ r.phy2log.zip r.rank ∧ perm[e]? = some m := by
    intro e k
    constructor
    · intro hx
      obtain ⟨p, hp⟩ := List.mem_iff_getElem?.1 hx
      obtain ⟨hpe, hpk⟩ := List.getElem?_zip_eq_some.1 hp
      obtain ⟨m, hm, he⟩ := hslot.1 hpe
      have hzip : (r.phy2log.zip r.rank)[p]? = some (m, k) := List.getElem?_zip_eq_some.2 ⟨hm, hpk⟩
      exact ⟨m, List.mem_of_getElem? hzip, he⟩
    · rintro ⟨m, hx, he⟩
      obtain ⟨p, hp⟩ := List.mem_iff_getElem?.1 hx
      obtain ⟨hpm, hpk⟩ := List.getElem?_zip_eq_some.1 hp
      have hzip : (phy2log.zip r.rank)[p]? = some (e, k) :=
        List.getElem?_zip_eq_some.2 ⟨hslot.2 ⟨m, hpm, he⟩, hpk⟩
      exact List.mem_of_getElem? hzip
  refine ⟨phy2log, logcnt, hphy, hcnt, ⟨?_, ?_, fun e k => ?_, ?_, ?_⟩, hphyLen, hcntLen, fun p e => hslot.1⟩
  · exact h.length_rank.trans hphyLen.symm
  · -- two slots of one expert and rank were two slots of one expert and rank before
    refine List.nodup_iff_getElem?_ne_getElem?.2 fun i j hij hj heq => ?_
    obtain ⟨⟨e, k⟩, hx⟩ : ∃ x, (phy2log.zip r.rank)[j]? = some x := ⟨_, List.getElem?_eq_getElem hj⟩
    obtain ⟨hje, hjk⟩ := List.getElem?_zip_eq_some.1 hx
    obtain ⟨hie, hik⟩ := List.getElem?_zip_eq_some.1 (heq.trans hx)
    obtain ⟨m, hm, he⟩ := hslot.1 hie
    obtain ⟨m', hm', he'⟩ := hslot.1 hje
    obtain rfl := Option.some.inj (he.symm.trans he')
    exact hij.ne (h.slot_unique hm hik hm' hjk)
  · dsimp only
    rw [hmem]
    constructor
    · rintro ⟨m, hx, he⟩
      rw [hgetD he]
      exact (h.mem_iff m k).1 hx
    · intro hk
      have he : e < perm.length := by
        rw [hperm.length_eq, List.length_range, ← hcntLen]
        by_contra hge
        rw [List.getD_eq_getElem?_getD, List.getElem?_eq_none (Nat.le_of_not_lt hge)] at hk
        exact Nat.not_lt_zero k hk
      obtain ⟨m, hm⟩ : ∃ m, perm[e]? = some m := ⟨_, List.getElem?_eq_getElem he⟩
      rw [hgetD hm] at hk
      exact ⟨m, (h.mem_iff m k).2 hk, hm⟩
  · exact fun n hn => h.pos n (hcntPerm.mem_iff.1 hn)
  · exact hcntPerm.sum_eq.trans (h.sum.trans hphyLen.symm)

theorem div_div_div_cancel {a b c : ℕ} (hc : 0 < c) (hcb : b % c = 0) (hba : a % b = 0) :
    a / c / (b / c) = a / b ∧ a / c % (b / c) = 0 := by
  obtain ⟨u, rfl⟩ := Nat.dvd_of_mod_eq_zero hcb
  obtain ⟨v, rfl⟩ := Nat.dvd_of_mod_eq_zero hba
  rw [Nat.mul_assoc, Nat.mul_div_cancel_left _ hc, Nat.mul_div_cancel_left _ hc, Nat.mul_div_mul_left _ _ hc]
  exact ⟨rfl, Nat.mul_mod_right u v⟩

/-- Every replica of every expert has one slot, and the slots of an expert are on one node. -/
theorem rebalanceExpertsHierarchical_spec (c : Choices) {weight : List ℚ} {numPhy numGroups numNodes numGpus : ℕ}
    (hpos : 0 < weight.length) (hle : weight.length ≤ numPhy) (hgroups : 0 < numGroups) (hnodes : 0 < numNodes)
    (hgpus : 0 < numGpus) (hlog : weight.length % numGroups = 0) (hgroup : numGroups % numNodes = 0)
    (hgpu : numGpus % numNodes = 0) (hphy : numPhy % numGpus = 0) :
    ∃ r, rebalanceExpertsHierarchical c weight numPhy numGroups numNodes numGpus = some r ∧ Placed r ∧
      r.phy2log.length = numPhy ∧ r.logcnt.length = weight.length ∧
      ∀ p q e : ℕ, r.phy2log[p]? = some e → r.phy2log[q]? = some e →
        p / (numPhy / numNodes) = q / (numPhy / numNodes) := by
  have hdvdGroup : numNodes ∣ numGroups := Nat.dvd_of_mod_eq_zero hgroup
  have hdvdGpu : numNodes ∣ numGpus := Nat.dvd_of_mod_eq_zero hgpu
  have hdvdLog : numNodes ∣ weight.length := hdvdGroup.trans (Nat.dvd_of_mod_eq_zero hlog)
  have hdvdPhy : numNodes ∣ numPhy := hdvdGpu.trans (Nat.dvd_of_mod_eq_zero hphy)
  -- the groups are packed to the nodes, so that the experts are renumbered
  obtain ⟨packs, hpacks, _, hgroupPerm⟩ := balancedPacking_spec c
    ((reshape numGroups (weight.length / numGroups) weight).map List.sum) hnodes (by simpa using hgroup)
  rw [List.length_map, length_reshape] at hgroupPerm
  obtain ⟨log2mlog, hlog2mlog⟩ : ∃ l,
    (packs.flatMap fun x => (List.range (weight.length / numGroups)).map fun k =>
      (x.1 * (numGroups / numNodes) + x.2) * (weight.length / numGroups) + k) = l := ⟨_, rfl⟩
  have hperm : log2mlog.Perm (List.range weight.length) := by
    have hblocks := blocks_perm hgroupPerm (weight.length / numGroups)
    rw [Nat.mul_div_cancel' (Nat.dvd_of_mod_eq_zero hlog), List.flatMap_map] at hblocks
    exact hlog2mlog ▸ hblocks
  obtain ⟨tokensPerMlog, htokens, htokensPerm⟩ := Updates.gather_perm (inverse_perm hperm)
  -- every node places its own experts
  have hcancel := div_div_div_cancel hnodes hgpu hphy
  obtain ⟨nodes, hnodesOk, hlen, hall⟩ : ∃ nodes : List Replicas,
      ((reshape numNodes (weight.length / numNodes) tokensPerMlog).mapM fun row =>
        rebalanceNode c row (numPhy / numNodes) (numGpus / numNodes) (numPhy / numGpus)) = some nodes ∧
      nodes.length = numNodes ∧ ∀ r ∈ nodes, Placed r ∧ r.phy2log.length = numPhy / numNodes ∧
        r.logcnt.length = weight.length / numNodes := by
    rw [← hcancel.1]
    obtain ⟨nodes, hok, hlen, hall⟩ :=
      mapM_of_forall (l := reshape numNodes (weight.length / numNodes) tokensPerMlog)
      (f := fun row => rebalanceNode c row (numPhy / numNodes) (numGpus / numNodes)
        (numPhy / numNodes / (numGpus / numNodes)))
      (Q := fun r => Placed r ∧ r.phy2log.length = numPhy / numNodes ∧ r.logcnt.length = weight.length / numNodes)
      fun row hrow => by
        have hrowLen := length_of_mem_reshape (htokensPerm.length_eq.trans (Nat.mul_div_cancel' hdvdLog).symm) hrow
        rw [← hrowLen]
        refine rebalanceNode_spec c ?_ ?_ (Nat.div_pos (Nat.le_of_dvd hgpus hdvdGpu) hnodes) hcancel.2
        · exact hrowLen ▸ Nat.div_pos (Nat.le_of_dvd hpos hdvdLog) hnodes
        · exact hrowLen ▸ Nat.div_le_div_right hle
    exact ⟨nodes, hok, hlen.trans (length_reshape _ _ _), hall⟩
  have hjoin := joinNodes_spec hall
  rw [hlen] at hjoin
  have hcntLen : (joinNodes (weight.length / numNodes) nodes).logcnt.length = weight.length :=
    hjoin.length_cnt.trans (Nat.mul_div_cancel' hdvdLog)
  obtain ⟨phy2log, logcnt, hphyGather, hcntGather, hplaced, hphyLen, hlogLen, hfrom⟩ :=
    hjoin.placed.relabel (hcntLen.symm ▸ hperm)
  refine ⟨⟨phy2log, (joinNodes (weight.length / numNodes) nodes).rank, logcnt⟩, ?_, hplaced, ?_,
    hlogLen.trans hcntLen,
    fun p q e hp hq => ?_⟩
  · unfold rebalanceExpertsHierarchical
    rw [if_neg (by omega), if_neg (by omega)]
    dsimp only [joinNodes] at hphyGather hcntGather
    simp only [hpacks, hlog2mlog, htokens, hnodesOk, hphyGather, hcntGather, Option.bind_eq_bind, Option.bind_some]
    rfl
  · exact hphyLen.trans (hjoin.length_phy.trans (Nat.mul_div_cancel' hdvdPhy))
  · obtain ⟨m, hm, he⟩ := hfrom p e hp
    obtain ⟨m', hm', he'⟩ := hfrom q e hq
    obtain rfl := Option.some.inj (he.symm.trans he')
    rw [← hjoin.node p m hm, ← hjoin.node q m hm']

end NanoEngine.Experts
