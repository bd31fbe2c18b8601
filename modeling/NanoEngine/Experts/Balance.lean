import Mathlib.Algebra.GroupWithZero.Nat
import Mathlib.Data.List.GetD
import Mathlib.Data.List.Sort
import NanoEngine.Experts.Dispatch

/-!
# NanoEngine.Experts.Balance — what a call gives to the replicas of an expert

* `getElem?_rankWithinGroup`: the rank is the number of equal entries before.
* `ExpertMap`: the slots of every expert, and the maps made of them.
* `chosenDispatchIndex_spec`: the turn of every token, in which padding counts as tokens of expert `0`.
* `topkIdsLogicalToPhysical_error`: the cursors are not updated, and a call with tokens does not return.
* `dispatchAll_balanced_iff`
-/

namespace NanoEngine.Experts

open Updates

section ranks

variable {l : List ℕ} {j x : ℕ}

theorem getElem?_cumOnes {n : ℕ} (hj : j < n) : (cumOnes n)[j]? = some (j + 1) := by
  rw [cumOnes, List.getElem?_map, List.getElem?_range hj, Option.map_some]

theorem getElem?_offsets_zero (hl : l ≠ []) : (offsets l)[0]? = some 1 := by
  rw [offsets, List.getElem?_zipWith, getElem?_cumOnes (List.length_pos_iff.2 hl)]
  rfl

theorem getElem?_offsets_succ {y : ℕ} (hy : l[j]? = some y) (hx : l[j + 1]? = some x) :
    (offsets l)[j + 1]? = some (if x = y then 0 else j + 2) := by
  have hlt : j + 1 < l.length := (List.getElem?_eq_some_iff.1 hx).1
  have htail : l.tail[j]? = some x := by rwa [List.getElem?_tail]
  have hchange : (changes l)[j + 1]? = some (decide (x ≠ y)) := by
    rw [changes, List.getElem?_cons_succ, List.getElem?_zipWith, htail, hy]
  rw [offsets, List.getElem?_zipWith, getElem?_cumOnes hlt, hchange]
  by_cases hxy : x = y <;> simp [hxy]

/-- The start of the group and the equal entries before make up the position. -/
theorem filled_add_count (hsorted : l.Pairwise (· ≤ ·)) (hj : l[j]? = some x) :
    ((offsets l).take (j + 1)).foldl max 0 + (l.take j).count x = j + 1 := by
  induction j generalizing x with
  | zero =>
    have hl : l ≠ [] := by
      rintro rfl
      cases hj
    rw [List.take_add_one, getElem?_offsets_zero hl]
    rfl
  | succ j ih =>
    have hlt : j + 1 < l.length := (List.getElem?_eq_some_iff.1 hj).1
    obtain ⟨y, hy⟩ : ∃ y, l[j]? = some y := ⟨_, List.getElem?_eq_getElem (Nat.lt_of_succ_lt hlt)⟩
    have hprev := ih hy
    have htake : l.take (j + 1) = l.take j ++ [y] := by rw [List.take_add_one, hy, Option.toList_some]
    rw [List.take_add_one, getElem?_offsets_succ hy hj, Option.toList_some, List.foldl_append, List.foldl_cons,
      List.foldl_nil, htake, List.count_append, List.count_singleton]
    by_cases hxy : x = y
    · subst hxy
      simp only [if_true, beq_self_eq_true, Nat.max_zero]
      omega
    · -- the entries before are smaller
      have hbefore : (l.take j).count x = 0 := by
        refine List.count_eq_zero.2 fun hmem => hxy (Nat.le_antisymm ?_ ?_)
        · obtain ⟨i, hi⟩ := List.mem_iff_getElem?.1 hmem
          have hij : i < j := Nat.lt_of_lt_of_le (List.getElem?_eq_some_iff.1 hi).1 (List.length_take_le _ _)
          rw [List.getElem?_take_of_lt hij] at hi
          obtain ⟨hil, rfl⟩ := List.getElem?_eq_some_iff.1 hi
          obtain ⟨hjl, rfl⟩ := List.getElem?_eq_some_iff.1 hy
          exact List.pairwise_iff_getElem.1 hsorted i j hil hjl hij
        · obtain ⟨hjl, rfl⟩ := List.getElem?_eq_some_iff.1 hy
          obtain ⟨hjl', rfl⟩ := List.getElem?_eq_some_iff.1 hj
          exact List.pairwise_iff_getElem.1 hsorted j (j + 1) hjl hjl' (Nat.lt_succ_self j)
      rw [if_neg hxy, if_neg (by simpa using Ne.symm hxy), hbefore]
      omega

theorem getElem?_rankWithinGroup (hsorted : l.Pairwise (· ≤ ·)) (hj : l[j]? = some x) :
    (rankWithinGroup l)[j]? = some ((l.take j).count x) := by
  have hlt : j < l.length := (List.getElem?_eq_some_iff.1 hj).1
  have hlen : (offsets l).length = l.length := by
    cases l with
    | nil => rfl
    | cons y l => simp [offsets, cumOnes, changes]
  have hmax : (cummax (offsets l))[j]? = some (((offsets l).take (j + 1)).foldl max 0) := by
    rw [cummax, List.getElem?_map, List.getElem?_range (hlen.symm ▸ hlt), Option.map_some]
  rw [rankWithinGroup, List.getElem?_zipWith, getElem?_cumOnes hlt, hmax]
  have := filled_add_count hsorted hj
  exact congrArg some (by omega)

end ranks

/-- The slots of every logical expert, at least one. -/
structure ExpertMap where
  slots : List (List ℕ)
  width : ℕ
  slots_ne_nil : slots ≠ []
  row_ne_nil : ∀ row ∈ slots, row ≠ []

/-- The tensors of the map, `-1` after the slots of a row. -/
def ExpertMap.info (m : ExpertMap) (cursor : Option (List ℕ)) : EPLBDispatchInfo where
  logicalToAllPhysicalMap := m.slots.map fun row => row.map Int.ofNat ++ List.replicate (m.width - row.length) (-1)
  numValid := m.slots.map List.length
  dispatchCursor := cursor

/-- A logical expert, or padding. -/
def IsId (m : ExpertMap) (id : ℤ) : Prop := id = -1 ∨ 0 ≤ id ∧ id < m.slots.length

/-- The ids in the order of the sort. -/
def sortedIds (s : SortAscending) (ids : List ℤ) : List ℤ :=
  (s.indices (ids.map validId)).map fun i => ids.getD i 0

theorem gather_sortedIds (s : SortAscending) (ids : List ℤ) :
    gather ids (s.indices (ids.map validId)) = some (sortedIds s ids) := by
  refine gather_eq_some_iff.2 ?_
  rw [sortedIds, List.map_map]
  refine List.map_congr_left fun i hi => ?_
  have hlt : i < ids.length := by simpa using (s.perm (ids.map validId)).mem_iff.1 hi
  rw [Function.comp_apply, List.getElem?_eq_getElem hlt, List.getD_eq_getElem _ _ hlt]

theorem gather_validIds (s : SortAscending) (ids : List ℤ) :
    gather (ids.map validId) (s.indices (ids.map validId)) = some ((sortedIds s ids).map validId) := by
  refine gather_eq_some_iff.2 ?_
  have hmap := congrArg (List.map (Option.map validId)) (gather_eq_some_iff.1 (gather_sortedIds s ids))
  rw [List.map_map, List.map_map] at hmap
  rw [List.map_map]
  exact (List.map_congr_left fun i _ => List.getElem?_map).trans hmap

theorem sortedIds_pairwise (s : SortAscending) (ids : List ℤ) :
    ((sortedIds s ids).map validId).Pairwise (· ≤ ·) := by
  rw [sortedIds, List.map_map, List.pairwise_map]
  refine (s.sorted (ids.map validId)).imp_of_mem fun {i j} hi hj hle => ?_
  have hget : ∀ i ∈ s.indices (ids.map validId), (ids.map validId).getD i 0 = validId (ids.getD i 0) := by
    intro i hi
    have hlt : i < ids.length := by simpa using (s.perm (ids.map validId)).mem_iff.1 hi
    rw [List.getD_eq_getElem _ _ (by simpa using hlt), List.getElem_map, List.getD_eq_getElem _ _ hlt]
  rwa [hget i hi, hget j hj] at hle

section call

variable {m : ExpertMap} {s : SortAscending} {ids : List ℤ} {c : List ℕ}

theorem validId_lt (h : ∀ id ∈ ids, IsId m id) {e : ℕ} (he : e ∈ ids.map validId) : e < m.slots.length := by
  obtain ⟨id, hid, rfl⟩ := List.mem_map.1 he
  have hpos : 0 < m.slots.length := List.length_pos_iff.2 m.slots_ne_nil
  rcases h id hid with rfl | ⟨hle, hlt⟩
  · exact hpos
  · unfold validId isValid
    split_ifs
    · omega
    · exact hpos

/-- **The turn of a token**: the cursor of its expert and the entries of the expert that the sort puts before it,
padding included if the expert is `0`. -/
theorem chosenDispatchIndex_spec (s : SortAscending) (hc : c.length = m.slots.length) (h : ∀ id ∈ ids, IsId m id) :
    ∃ chosen, chosenDispatchIndex s c (ids.map validId) = some chosen ∧
      ∀ j i id, (s.indices (ids.map validId))[j]? = some i → ids[i]? = some id →
        chosen[i]? =
          some (c.getD (validId id) 0 + ((sortedIds s ids).take j).countP fun id' => validId id' = validId id) := by
  have hperm : ((sortedIds s ids).map validId).Perm (ids.map validId) := by
    obtain ⟨l, hl, hp⟩ := gather_perm (s.perm (ids.map validId))
    rwa [← Option.some.inj ((gather_validIds s ids).symm.trans hl)] at hp
  have hlt : ∀ e ∈ (sortedIds s ids).map validId, e < c.length := fun e he => by
    rw [hc]
    exact validId_lt h (hperm.mem_iff.1 he)
  obtain ⟨base, hbase⟩ := gather_of_lt hlt
  refine ⟨_, by rw [chosenDispatchIndex, gather_validIds, Option.bind_eq_bind, Option.bind_some, hbase]; rfl,
    fun j i id hj hi => ?_⟩
  have hilt : i < ids.length := (List.getElem?_eq_some_iff.1 hi).1
  have hsorted : ((sortedIds s ids).map validId)[j]? = some (validId id) := by
    rw [getElem?_gather (gather_validIds s ids) hj (by simpa using hilt), List.getElem?_map, hi, Option.map_some]
  have hcursor : base[j]? = some (c.getD (validId id) 0) := by
    have hmem := hlt _ (List.mem_of_getElem? hsorted)
    rw [getElem?_gather hbase hsorted hmem, List.getElem?_eq_getElem hmem, List.getD_eq_getElem _ _ hmem]
  refine getElem?_scatter ((s.perm _).nodup_iff.2 List.nodup_range) hj ?_ (by simpa using hilt)
  rw [List.getElem?_zipWith, hcursor, getElem?_rankWithinGroup (sortedIds_pairwise s ids) hsorted]
  refine congrArg some (congrArg (c.getD (validId id) 0 + ·) ?_)
  rw [← List.map_take, List.count_eq_countP, List.countP_map]
  exact List.countP_congr fun id' _ => by simp

theorem length_dispatchCursor {cursor : Option (List ℕ)} (hcursor : ∀ c ∈ cursor, c.length = m.slots.length) :
    ((m.info cursor).dispatchCursor.getD (List.replicate (m.info cursor).numValid.length 0)).length =
      m.slots.length := by
  cases cursor with
  | none => simp [ExpertMap.info]
  | some c => exact hcursor c rfl

/-- A call with entries gets to the update of the cursors and no further. -/
theorem topkIdsLogicalToPhysical_error (s : SortAscending) {cursor : Option (List ℕ)}
    (hcursor : ∀ c ∈ cursor, c.length = m.slots.length) (h : ∀ id ∈ ids, IsId m id) (hne : ids ≠ []) :
    topkIdsLogicalToPhysical s (m.info cursor) ids = .error .castError := by
  obtain ⟨chosen, hchosen, -⟩ := chosenDispatchIndex_spec s (length_dispatchCursor hcursor) h
  unfold topkIdsLogicalToPhysical
  dsimp only
  rw [hchosen]
  simp [orIndexError, bincount, addInPlace, hne, Bind.bind, Except.bind]

/-- A call without entries returns an empty tensor, and the cursors are there afterwards. -/
theorem topkIdsLogicalToPhysical_nil (s : SortAscending) {cursor : Option (List ℕ)}
    (hcursor : ∀ c ∈ cursor, c.length = m.slots.length) :
    ∃ c : List ℕ, c.length = m.slots.length ∧
      topkIdsLogicalToPhysical s (m.info cursor) [] = .ok ([], m.info (some c)) := by
  have hlen := length_dispatchCursor hcursor
  obtain ⟨chosen, hchosen, -⟩ := @chosenDispatchIndex_spec m [] _ s hlen (by simp)
  refine ⟨List.zipWith (· + ·) ((m.info cursor).dispatchCursor.getD
    (List.replicate (m.info cursor).numValid.length 0))
    (List.replicate m.slots.length 0), by simp [hlen], ?_⟩
  unfold topkIdsLogicalToPhysical
  dsimp only
  rw [hchosen, hlen]
  rfl

end call

/-- How many tokens of expert `e` the calls send to slot `p`. -/
def sent (calls results : List (List ℤ)) (e p : ℤ) : ℕ :=
  (List.zipWith (fun ids res => (ids.zip res).count (e, p)) calls results).sum

/-- Every token goes to a slot of its expert, padding nowhere. -/
def Dispatched (m : ExpertMap) (ids res : List ℤ) : Prop :=
  res.length = ids.length ∧ ∀ (i : ℕ) (id : ℤ), ids[i]? = some id →
    (id = -1 → res[i]? = some (-1)) ∧
      ∀ (e : ℕ) (row : List ℕ), id = e → m.slots[e]? = some row → ∃ k ∈ row, res[i]? = some (k : ℤ)

/-- The slots of an expert get the same number of its tokens, up to one. -/
def Balanced (m : ExpertMap) (calls results : List (List ℤ)) : Prop :=
  ∀ (e : ℕ) (row : List ℕ), m.slots[e]? = some row →
    ∀ p ∈ row, ∀ q ∈ row, sent calls results e p ≤ sent calls results e q + 1

/-- The calls return, with every token at a slot of its expert and the slots balanced. -/
def BalancedDispatch (s : SortAscending) (m : ExpertMap) (calls : List (List ℤ)) : Prop :=
  ∃ results, dispatchAll s (m.info none) calls = .ok results ∧ List.Forall₂ (Dispatched m) calls results ∧
    Balanced m calls results

variable {m : ExpertMap}

theorem dispatchAll_nils (s : SortAscending) {calls : List (List ℤ)} (h : ∀ ids ∈ calls, ids = []) :
    ∀ {cursor : Option (List ℕ)}, (∀ c ∈ cursor, c.length = m.slots.length) →
      dispatchAll s (m.info cursor) calls = .ok calls := by
  induction calls with
  | nil => exact fun _ => rfl
  | cons ids calls ih =>
    intro cursor hcursor
    obtain rfl : ids = [] := h ids List.mem_cons_self
    obtain ⟨c, hc, hcall⟩ := topkIdsLogicalToPhysical_nil s hcursor
    have hrest := @ih (fun ids' hids' => h ids' (List.mem_cons_of_mem _ hids')) (some c)
      fun c' hc' => by rw [← Option.some.inj hc', hc]
    rw [dispatchAll, hcall]
    simp [Bind.bind, Except.bind, hrest, Pure.pure, Except.pure]

/-- Calls that all return have no entries. -/
theorem nil_of_dispatchAll (s : SortAscending) {calls : List (List ℤ)}
    (h : ∀ ids ∈ calls, ∀ id ∈ ids, IsId m id) :
    ∀ {cursor : Option (List ℕ)} {results : List (List ℤ)}, (∀ c ∈ cursor, c.length = m.slots.length) →
      dispatchAll s (m.info cursor) calls = .ok results → ∀ ids ∈ calls, ids = [] := by
  induction calls with
  | nil => exact fun _ _ ids hids => absurd hids List.not_mem_nil
  | cons ids calls ih =>
    intro cursor results hcursor hrun
    by_cases hne : ids = []
    · subst hne
      obtain ⟨c, hc, hcall⟩ := topkIdsLogicalToPhysical_nil s hcursor
      rw [dispatchAll, hcall] at hrun
      simp only [Bind.bind, Except.bind] at hrun
      cases hrest : dispatchAll s (m.info (some c)) calls with
      | error e =>
        rw [hrest] at hrun
        cases hrun
      | ok rest =>
        refine List.forall_mem_cons.2 ⟨rfl,
          @ih (fun ids' hids' => h ids' (List.mem_cons_of_mem _ hids')) (some c) rest
          (fun c' hc' => by rw [← Option.some.inj hc', hc]) hrest⟩
    · rw [dispatchAll, topkIdsLogicalToPhysical_error s hcursor (h ids List.mem_cons_self) hne] at hrun
      cases hrun

/-- **When the calls return a valid and balanced dispatch**: if none of them has an entry. -/
theorem dispatchAll_balanced_iff (s : SortAscending) (m : ExpertMap) (calls : List (List ℤ))
    (h : ∀ ids ∈ calls, ∀ id ∈ ids, IsId m id) :
      BalancedDispatch s m calls ↔ ∀ ids ∈ calls, ids = [] := by
  constructor
  · rintro ⟨results, hrun, -, -⟩
    exact nil_of_dispatchAll s h (fun c hc => by cases hc) hrun
  · intro hnil
    refine ⟨calls, dispatchAll_nils s hnil (fun c hc => by cases hc), List.forall₂_same.2 fun ids hids => ?_,
      fun e row _ p _ q _ => ?_⟩
    · rw [hnil ids hids]
      exact ⟨rfl, fun i id hi => by simp at hi⟩
    · -- nothing is sent
      have hzero : ∀ e p : ℤ, sent calls calls e p = 0 := by
        intro e p
        rw [sent, List.zipWith_self, List.sum_eq_zero_iff_forall_eq_nat]
        intro n hn
        obtain ⟨ids, hids, rfl⟩ := List.mem_map.1 hn
        rw [hnil ids hids]
        rfl
      rw [hzero]
      exact Nat.zero_le _

/-- A stable sort. -/
def stableSort : SortAscending where
  indices l := (List.range l.length).insertionSort fun i j => l.getD i 0 ≤ l.getD j 0
  perm l := List.perm_insertionSort _ _
  sorted l := by
    have : Std.Total fun i j => l.getD i 0 ≤ l.getD j 0 := ⟨fun i j => Nat.le_total _ _⟩
    have : IsTrans ℕ fun i j => l.getD i 0 ≤ l.getD j 0 := ⟨fun _ _ _ => Nat.le_trans⟩
    exact List.pairwise_insertionSort _ _

/-- Two experts, one with two slots. -/
def threeSlots : ExpertMap where
  slots := [[0, 1], [2]]
  width := 2
  slots_ne_nil := by simp
  row_ne_nil := by simp

/-- Padding before a token of expert `0` moves its turn on. -/
example : chosenDispatchIndex stableSort [0, 0] ([-1, 0, -1, 0].map validId) = some [0, 1, 2, 3] := by decide +kernel

theorem dispatchAll_balanced_empty : BalancedDispatch stableSort threeSlots [[], []] :=
  (dispatchAll_balanced_iff stableSort threeSlots [[], []] (by simp)).2 (by simp)

/-- The first call with entries does not return. -/
theorem not_balanced : ¬ (∀ (s : SortAscending) (m : ExpertMap) (calls : List (List ℤ)),
    (∀ ids ∈ calls, ∀ id ∈ ids, IsId m id) → BalancedDispatch s m calls) ∧
      dispatchAll stableSort (threeSlots.info none) [[-1, 0, -1, 0]] = .error .castError := by
  have hids : ∀ ids ∈ [[-1, 0, -1, 0]], ∀ id ∈ ids, IsId threeSlots id := by
    unfold IsId
    decide
  have hrun : dispatchAll stableSort (threeSlots.info none) [[-1, 0, -1, 0]] = .error .castError := by
    rw [dispatchAll, topkIdsLogicalToPhysical_error stableSort (fun c hc => by cases hc) (hids _ List.mem_cons_self)
      (by simp)]
    rfl
  refine ⟨fun h => ?_, hrun⟩
  obtain ⟨results, hok, -, -⟩ := h stableSort threeSlots [[-1, 0, -1, 0]] hids
  rw [hrun] at hok
  cases hok

end NanoEngine.Experts
