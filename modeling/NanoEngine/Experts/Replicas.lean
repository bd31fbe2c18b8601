import NanoEngine.Experts.Packing

/-!
# NanoEngine.Experts.Replicas — every replica of every expert has one slot

* `Placed`: the slots of a row, each a replica of an expert.
* `replicateExperts_spec`: the slots are filled one by one.
* `Placed.gather_perm`: the slots in another order.
* `rebalanceNode_spec`: the slots of a node, packed to its GPUs.
-/

namespace NanoEngine.Experts

open Updates

/-- The slots hold every replica of every expert once. -/
structure Placed (r : Replicas) : Prop where
  length_rank : r.rank.length = r.phy2log.length
  nodup : (r.phy2log.zip r.rank).Nodup
  mem_iff : ∀ e k, (e, k) ∈ r.phy2log.zip r.rank ↔ k < r.logcnt.getD e 0
  pos : ∀ n ∈ r.logcnt, 0 < n
  sum : r.logcnt.sum = r.phy2log.length

namespace Placed

variable {r : Replicas}

theorem length_zip (h : Placed r) : (r.phy2log.zip r.rank).length = r.phy2log.length := by
  rw [List.length_zip, h.length_rank, Nat.min_self]

/-- Every slot holds a replica. -/
theorem exists_rank (h : Placed r) {p e : ℕ} (hp : r.phy2log[p]? = some e) :
    ∃ k, r.rank[p]? = some k ∧ k < r.logcnt.getD e 0 := by
  have hlt : p < r.rank.length := h.length_rank ▸ (List.getElem?_eq_some_iff.1 hp).1
  obtain ⟨k, hk⟩ : ∃ k, r.rank[p]? = some k := ⟨_, List.getElem?_eq_getElem hlt⟩
  have hzip : (r.phy2log.zip r.rank)[p]? = some (e, k) := List.getElem?_zip_eq_some.2 ⟨hp, hk⟩
  exact ⟨k, hk, (h.mem_iff e k).1 (List.mem_of_getElem? hzip)⟩

/-- Every replica has a slot. -/
theorem exists_slot (h : Placed r) {e k : ℕ} (hk : k < r.logcnt.getD e 0) :
    ∃ p : ℕ, r.phy2log[p]? = some e ∧ r.rank[p]? = some k := by
  obtain ⟨p, hp⟩ : ∃ p, (r.phy2log.zip r.rank)[p]? = some (e, k) := List.mem_iff_getElem?.1 ((h.mem_iff e k).2 hk)
  obtain ⟨hphy, hrank⟩ := List.getElem?_zip_eq_some.1 hp
  exact ⟨p, hphy, hrank⟩

theorem slot_unique (h : Placed r) {p q e k : ℕ} (hp : r.phy2log[p]? = some e) (hpk : r.rank[p]? = some k)
    (hq : r.phy2log[q]? = some e) (hqk : r.rank[q]? = some k) : p = q := by
  have hlt : p < (r.phy2log.zip r.rank).length := h.length_zip ▸ (List.getElem?_eq_some_iff.1 hp).1
  refine (List.getElem?_inj hlt h.nodup).1 ?_
  have hzip : ∀ {q : ℕ}, r.phy2log[q]? = some e → r.rank[q]? = some k →
    (r.phy2log.zip r.rank)[q]? = some (e, k) :=
    fun hphy hrank => List.getElem?_zip_eq_some.2 ⟨hphy, hrank⟩
  rw [hzip hp hpk, hzip hq hqk]

/-- Every slot holds an expert of the row. -/
theorem lt_of_mem (h : Placed r) {e : ℕ} (he : e ∈ r.phy2log) : e < r.logcnt.length := by
  obtain ⟨p, hp⟩ := List.mem_iff_getElem?.1 he
  obtain ⟨k, _, hk⟩ := h.exists_rank hp
  by_contra hge
  rw [List.getD_eq_getElem?_getD, List.getElem?_eq_none (Nat.le_of_not_lt hge)] at hk
  exact Nat.not_lt_zero k hk

end Placed

/-- One more replica of the expert `e`, at the end. -/
theorem Placed.append {r : Replicas} (h : Placed r) {e : ℕ} (he : e < r.logcnt.length) :
    Placed ⟨r.phy2log ++ [e], r.rank ++ [r.logcnt.getD e 0], r.logcnt.set e (r.logcnt.getD e 0 + 1)⟩ := by
  have hzip : (r.phy2log ++ [e]).zip (r.rank ++ [r.logcnt.getD e 0]) =
    r.phy2log.zip r.rank ++ [(e, r.logcnt.getD e 0)] :=
    List.zip_append h.length_rank.symm
  have hcount : ∀ e', (r.logcnt.set e (r.logcnt.getD e 0 + 1)).getD e' 0 =
      if e' = e then r.logcnt.getD e 0 + 1 else r.logcnt.getD e' 0 := getD_set_succ he
  refine ⟨?_, ?_, fun e' k => ?_, fun n hn => ?_, ?_⟩
  · simp only [List.length_append, List.length_singleton, h.length_rank]
  · rw [hzip, List.nodup_append]
    refine ⟨h.nodup, List.nodup_singleton _, fun x hx y hy hxy => ?_⟩
    rw [hxy, List.mem_singleton.1 hy] at hx
    exact Nat.lt_irrefl _ ((h.mem_iff e _).1 hx)
  · rw [hzip, List.mem_append, List.mem_singleton, h.mem_iff, hcount]
    split_ifs with heq
    · subst heq
      simp only [Prod.mk.injEq, true_and]
      omega
    · simp only [Prod.mk.injEq, heq, false_and, or_false]
  · rcases List.mem_or_eq_of_mem_set hn with hn | rfl
    · exact h.pos n hn
    · exact Nat.succ_pos _
  · simp only [sum_set_succ he, h.sum, List.length_append, List.length_singleton]

theorem placed_start (numLog : ℕ) :
    Placed ⟨List.range numLog, List.replicate numLog 0, List.replicate numLog 1⟩ := by
  have hzip : (List.range numLog).zip (List.replicate numLog 0) = (List.range numLog).map fun e => (e, 0) := by
    refine List.ext_getElem (by simp) fun i _ _ => ?_
    simp
  refine ⟨by simp, ?_, fun e k => ?_, fun n hn => ?_, by simp⟩
  · rw [hzip]
    exact List.nodup_range.map fun a b hab => (Prod.mk.inj hab).1
  · rw [hzip, List.mem_map, List.getD_eq_getElem?_getD, List.getElem?_replicate]
    split_ifs with he
    · rw [Option.getD_some, Nat.lt_one_iff]
      constructor
      · rintro ⟨e', _, heq⟩
        exact (Prod.mk.inj heq).2.symm
      · rintro rfl
        exact ⟨e, List.mem_range.2 he, rfl⟩
    · rw [Option.getD_none]
      refine ⟨?_, fun h => absurd h (Nat.not_lt_zero k)⟩
      rintro ⟨e', hmem, heq⟩
      exact absurd ((Prod.mk.inj heq).1 ▸ List.mem_range.1 hmem) he
  · rw [List.eq_of_mem_replicate hn]
    exact Nat.one_pos

/-- The tensors before slot `i` is filled. -/
structure FilledTo (numPhy numLog i : ℕ) (r : Replicas) : Prop where
  placed : Placed ⟨r.phy2log.take i, r.rank.take i, r.logcnt⟩
  length_phy : r.phy2log.length = numPhy
  length_rank : r.rank.length = numPhy
  length_cnt : r.logcnt.length = numLog

theorem addReplica_spec (c : Choices) {weight : List ℚ} {r : Replicas} {numPhy i : ℕ} (hpos : 0 < weight.length)
    (h : FilledTo numPhy weight.length i r) (hi : i < numPhy) :
    FilledTo numPhy weight.length (i + 1) (addReplica c weight r i) := by
  unfold addReplica
  dsimp only
  generalize hload : List.zipWith (fun (w : ℚ) (n : ℕ) => w / n) weight r.logcnt = load
  have hlen : load.length = weight.length := by rw [← hload, List.length_zipWith, h.length_cnt, Nat.min_self]
  have hlt : c.maxIndex load < r.logcnt.length := by
    rw [h.length_cnt, ← hlen]
    exact c.maxIndex_lt _ (List.ne_nil_of_length_pos (hlen ▸ hpos))
  have htake : ∀ (l : List ℕ) (v : ℕ), l.length = numPhy → (l.set i v).take (i + 1) = l.take i ++ [v] := by
    intro l v hl
    rw [List.take_add_one, List.take_set_of_le (Nat.le_refl i), List.getElem?_set_self (hl ▸ hi)]
    rfl
  refine ⟨?_, ?_, ?_, ?_⟩
  · dsimp only
    rw [htake _ _ h.length_phy, htake _ _ h.length_rank]
    exact h.placed.append hlt
  · rw [List.length_set, h.length_phy]
  · rw [List.length_set, h.length_rank]
  · rw [List.length_set, h.length_cnt]

theorem addReplicas_spec (c : Choices) {weight : List ℚ} {numPhy : ℕ} (hpos : 0 < weight.length) (m : ℕ)
    (hm : weight.length + m ≤ numPhy) :
    FilledTo numPhy weight.length (weight.length + m) ((List.range' weight.length m).foldl (addReplica c weight)
      ⟨List.range numPhy, List.replicate numPhy 0, List.replicate weight.length 1⟩) := by
  induction m with
  | zero =>
    refine ⟨?_, List.length_range, List.length_replicate, List.length_replicate⟩
    simp only [Nat.add_zero, List.range'_zero, List.foldl_nil, List.take_range, List.take_replicate]
    rw [Nat.min_eq_left (by omega)]
    exact placed_start weight.length
  | succ m ih =>
    rw [List.range'_1_concat, List.foldl_append]
    exact addReplica_spec c hpos (ih (Nat.le_of_succ_le hm)) hm

/-- Every replica of every expert has one slot. -/
theorem replicateExperts_spec (c : Choices) {weight : List ℚ} {numPhy : ℕ} (hpos : 0 < weight.length)
    (hle : weight.length ≤ numPhy) :
    ∃ r, replicateExperts c weight numPhy = some r ∧ Placed r ∧ r.phy2log.length = numPhy ∧
      r.logcnt.length = weight.length := by
  obtain ⟨hplaced, hphy, hrank, hcnt⟩ :=
    addReplicas_spec c hpos (numPhy - weight.length) (Nat.add_sub_of_le hle).le
  rw [Nat.add_sub_of_le hle, List.take_of_length_le hphy.le, List.take_of_length_le hrank.le] at hplaced
  exact ⟨_, if_neg (by omega), hplaced, hphy, hcnt⟩

theorem Placed.gather_perm {r : Replicas} (h : Placed r) {order : List ℕ}
    (horder : order.Perm (List.range r.phy2log.length)) :
    ∃ phy2log rank, gather r.phy2log order = some phy2log ∧ gather r.rank order = some rank ∧
      Placed ⟨phy2log, rank, r.logcnt⟩ ∧ phy2log.length = r.phy2log.length := by
  obtain ⟨phy2log, hphy, hphyPerm⟩ := Updates.gather_perm horder
  obtain ⟨rank, hrank, hrankPerm⟩ := Updates.gather_perm (h.length_rank.symm ▸ horder)
  obtain ⟨z, hz, hzPerm⟩ := Updates.gather_perm (l := r.phy2log.zip r.rank) (h.length_zip.symm ▸ horder)
  obtain rfl := Option.some.inj (hz.symm.trans (gather_zip hphy hrank))
  refine ⟨phy2log, rank, hphy, hrank, ⟨?_, hzPerm.nodup_iff.2 h.nodup, fun e k => ?_, h.pos, ?_⟩,
    hphyPerm.length_eq⟩
  · exact hrankPerm.length_eq.trans (h.length_rank.trans hphyPerm.length_eq.symm)
  · exact hzPerm.mem_iff.trans (h.mem_iff e k)
  · exact h.sum.trans hphyPerm.length_eq.symm

/-- The slots of a node, packed to its GPUs. -/
theorem rebalanceNode_spec (c : Choices) {row : List ℚ} {numPhy numGpus : ℕ} (hpos : 0 < row.length)
    (hle : row.length ≤ numPhy) (hgpus : 0 < numGpus) (hdiv : numPhy % numGpus = 0) :
    ∃ r, rebalanceNode c row numPhy numGpus (numPhy / numGpus) = some r ∧ Placed r ∧ r.phy2log.length = numPhy ∧
      r.logcnt.length = row.length := by
  obtain ⟨r, hr, hplaced, hphy, hcnt⟩ := replicateExperts_spec c hpos hle
  have hload : (List.zipWith (fun (w : ℚ) (n : ℕ) => w / n) row r.logcnt).length = row.length := by
    rw [List.length_zipWith, hcnt, Nat.min_self]
  have hmem : ∀ e ∈ r.phy2log, e < (List.zipWith (fun (w : ℚ) (n : ℕ) => w / n) row r.logcnt).length :=
    fun e he => by
    rw [hload, ← hcnt]
    exact hplaced.lt_of_mem he
  obtain ⟨tokensPerPhy, htokens⟩ := gather_of_lt hmem
  have hlen : tokensPerPhy.length = numPhy := (length_gather htokens).trans hphy
  obtain ⟨packs, hpacks, _, hperm⟩ := balancedPacking_spec c tokensPerPhy hgpus (hlen.symm ▸ hdiv)
  rw [hlen] at hperm
  have horder : (inverse (packs.map fun x => x.1 * (numPhy / numGpus) + x.2)).Perm (List.range r.phy2log.length) := by
    rw [hphy]
    exact inverse_perm hperm
  obtain ⟨phy2log, rank, hgather, hrank, hplaced', hphy'⟩ := hplaced.gather_perm horder
  refine ⟨⟨phy2log, rank, r.logcnt⟩, ?_, hplaced', hphy'.trans hphy, hcnt⟩
  unfold rebalanceNode
  simp only [hr, htokens, hpacks, Option.bind_eq_bind, Option.bind_some, hgather, hrank]
  rfl

end NanoEngine.Experts
