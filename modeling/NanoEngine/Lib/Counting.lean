import Mathlib.Algebra.BigOperators.Finprod
import Mathlib.Algebra.Order.BigOperators.Group.Finset
import Mathlib.Data.List.Count
import Mathlib.Logic.Function.Basic
import Mathlib.Tactic.Ring

/-!
# NanoEngine.Lib.Counting — occurrences in an indexed family of queues

* `totalCount n f a` counts the occurrences of `a` in the queues `f 0, …, f (n - 1)`.
* `familyCount f a` counts them in the entries of a map `f` with finitely many entries.
-/

namespace Counting

variable {α : Type*} [DecidableEq α]

theorem count_cons_eq (b a : α) (l : List α) : (b :: l).count a = l.count a + [b].count a := by
  rw [← List.singleton_append, List.count_append, Nat.add_comm]

/-- `a` does not occur after the elements equal to `b` are dropped, unless it is another one. -/
theorem count_filter_ne (l : List α) (a b : α) :
    (l.filter (fun c => decide (c ≠ b))).count a = if a = b then 0 else l.count a := by
  by_cases hab : a = b
  · subst hab
    rw [if_pos rfl]
    exact List.count_eq_zero.2 fun hmem => by simpa using (List.mem_filter.1 hmem).2
  · rw [if_neg hab, List.count_filter (by simpa using hab)]

/-- Filters that agree on `a` keep the same number of its occurrences. -/
theorem count_filter_congr {p q : α → Bool} {a : α} (h : p a = q a) (l : List α) :
    (l.filter p).count a = (l.filter q).count a := by
  cases hq : q a with
  | true => rw [List.count_filter (h.trans hq), List.count_filter hq]
  | false =>
    have hp := h.trans hq
    rw [List.count_eq_zero.2 fun hm => by simpa [hp] using (List.mem_filter.1 hm).2,
      List.count_eq_zero.2 fun hm => by simpa [hq] using (List.mem_filter.1 hm).2]

def totalCount (n : ℕ) (f : ℕ → List α) (a : α) : ℕ := ∑ d ∈ Finset.range n, (f d).count a

/-- Changing one queue changes the total by what changed there. -/
theorem totalCount_update {n k : ℕ} (hk : k < n) (f : ℕ → List α) (l : List α) (a : α) :
    totalCount n (Function.update f k l) a + (f k).count a = totalCount n f a + l.count a := by
  unfold totalCount
  have hmem : k ∈ Finset.range n := Finset.mem_range.2 hk
  rw [← Finset.add_sum_erase _ _ hmem, ← Finset.add_sum_erase _ (fun d => (f d).count a) hmem]
  have hsum : ∑ d ∈ (Finset.range n).erase k, (Function.update f k l d).count a =
      ∑ d ∈ (Finset.range n).erase k, (f d).count a := by
    refine Finset.sum_congr rfl fun d hd => ?_
    rw [Function.update_of_ne (Finset.ne_of_mem_erase hd)]
  rw [hsum, Function.update_self]
  ring

/-- One queue contributes at most the total. -/
theorem count_le_totalCount {n k : ℕ} (hk : k < n) (f : ℕ → List α) (a : α) :
    (f k).count a ≤ totalCount n f a :=
  Finset.single_le_sum (f := fun d => (f d).count a) (fun _ _ => Nat.zero_le _) (Finset.mem_range.2 hk)

/-- Filtering every queue keeps the count of what the filter keeps. -/
theorem totalCount_filter (n : ℕ) (f : ℕ → List α) (p : α → Bool) (a : α) :
    totalCount n (fun d => (f d).filter p) a = if p a then totalCount n f a else 0 := by
  unfold totalCount
  split
  case isTrue h => exact Finset.sum_congr rfl fun d _ => List.count_filter h
  case isFalse h =>
    refine Finset.sum_eq_zero fun d _ => List.count_eq_zero.2 fun hmem => h ?_
    exact (List.mem_filter.1 hmem).2

/-- The count in a list of queues is the total over the indices. -/
theorem count_flatten (queues : List (List α)) (a : α) :
    queues.flatten.count a = totalCount queues.length (fun d => queues.getD d []) a := by
  unfold totalCount
  induction queues with
  | nil => rfl
  | cons queue queues ih =>
    rw [List.flatten_cons, List.count_append, List.length_cons, Finset.sum_range_succ', ih, Nat.add_comm]
    rfl

/-- The occurrences of `a` in all entries of a map of lists. -/
noncomputable def familyCount {ι : Type*} (f : ι → Option (List α)) (a : α) : ℕ :=
  ∑ᶠ i, ((f i).getD []).count a

section familyCount

variable {ι : Type*} [DecidableEq ι] {f : ι → Option (List α)}

omit [DecidableEq ι] in
theorem finite_support_count (hf : {i | f i ≠ none}.Finite) (a : α) :
    (Function.support fun i => ((f i).getD []).count a).Finite := by
  refine hf.subset fun i hi hnone => hi ?_
  show ((f i).getD []).count a = 0
  rw [hnone]
  rfl

omit [DecidableEq α] in
theorem finite_update (hf : {i | f i ≠ none}.Finite) (k : ι) (o : Option (List α)) :
    {i | Function.update f k o i ≠ none}.Finite := by
  refine (hf.insert k).subset fun i hi => ?_
  by_cases hik : i = k
  · exact .inl hik
  · refine .inr fun hnone => hi ?_
    rw [Function.update_of_ne hik, hnone]

/-- Changing one entry changes the count by what changed there. -/
theorem familyCount_update (hf : {i | f i ≠ none}.Finite) (k : ι) (o : Option (List α)) (a : α) :
    familyCount (Function.update f k o) a + ((f k).getD []).count a = familyCount f a + (o.getD []).count a := by
  have hfin := finite_support_count hf a
  have hfin' := finite_support_count (finite_update hf k o) a
  -- the sums over one finite set that has `k` and both supports
  set S : Finset ι := insert k (hfin.toFinset ∪ hfin'.toFinset) with hS
  have hk : k ∈ S := Finset.mem_insert_self _ _
  have hsum : familyCount f a = ∑ i ∈ S, ((f i).getD []).count a := by
    refine finsum_eq_sum_of_support_subset _ fun i hi => ?_
    simp only [hS, Finset.coe_insert, Finset.coe_union, Set.Finite.coe_toFinset]
    exact .inr (.inl hi)
  have hsum' : familyCount (Function.update f k o) a = ∑ i ∈ S, ((Function.update f k o i).getD []).count a := by
    refine finsum_eq_sum_of_support_subset _ fun i hi => ?_
    simp only [hS, Finset.coe_insert, Finset.coe_union, Set.Finite.coe_toFinset]
    exact .inr (.inr hi)
  have hrest : ∑ i ∈ S.erase k, ((Function.update f k o i).getD []).count a =
      ∑ i ∈ S.erase k, ((f i).getD []).count a := by
    refine Finset.sum_congr rfl fun i hi => ?_
    rw [Function.update_of_ne (Finset.ne_of_mem_erase hi)]
  rw [hsum, hsum', ← Finset.add_sum_erase _ _ hk,
    ← Finset.add_sum_erase _ (fun i => ((f i).getD []).count a) hk, hrest,
    Function.update_self]
  ring

omit [DecidableEq ι] in
/-- One entry contributes at most the count. -/
theorem count_le_familyCount (hf : {i | f i ≠ none}.Finite) (k : ι) (a : α) :
    ((f k).getD []).count a ≤ familyCount f a := by
  have hfin := finite_support_count hf a
  by_cases hk : k ∈ Function.support fun i => ((f i).getD []).count a
  · have hle := Finset.single_le_sum (f := fun i => ((f i).getD []).count a) (fun _ _ => Nat.zero_le _)
      (hfin.mem_toFinset.2 hk)
    rwa [← finsum_eq_sum _ hfin] at hle
  · have hzero : ((f k).getD []).count a = 0 := Function.notMem_support.1 hk
    omega

/-- Two entries contribute at most the count. -/
theorem count_add_count_le_familyCount (hf : {i | f i ≠ none}.Finite) {k l : ι} (hkl : k ≠ l) (a : α) :
    ((f k).getD []).count a + ((f l).getD []).count a ≤ familyCount f a := by
  have hupdate := familyCount_update hf k none a
  have hle := count_le_familyCount (finite_update hf k none) l a
  rw [Function.update_of_ne hkl.symm] at hle
  rw [Option.getD_none, List.count_nil] at hupdate
  omega

omit [DecidableEq ι] in
/-- What is counted is in some entry. -/
theorem exists_mem_of_familyCount_pos {a : α} (h : 0 < familyCount f a) : ∃ i l, f i = some l ∧ a ∈ l := by
  by_contra hno
  have hzero : familyCount f a = 0 := by
    refine finsum_eq_zero_of_forall_eq_zero fun i => List.count_eq_zero.2 fun hmem => hno ?_
    cases hi : f i with
    | none =>
      rw [hi] at hmem
      cases hmem
    | some l =>
      rw [hi] at hmem
      exact ⟨i, l, hi, hmem⟩
  omega

omit [DecidableEq ι] in
theorem familyCount_none (a : α) : familyCount (fun _ : ι => (none : Option (List α))) a = 0 := by
  unfold familyCount
  simp

end familyCount

/-- The parts into which a list is filtered by a key below `n` hold the elements whose key is below `n`. -/
theorem count_filter_parts (l : List α) (a : α) (k : ℕ) (p : ℕ → α → Bool)
    (hp : ∀ g, p g a = decide (g = k)) (n : ℕ) :
    ((List.range n).map fun g => l.filter (p g)).flatten.count a = if k < n then l.count a else 0 := by
  induction n with
  | zero => simp
  | succ n ih =>
    rw [List.range_succ, List.map_append, List.flatten_append, List.count_append, ih]
    by_cases hk : k = n
    · subst hk
      simp [hp]
    · have hzero : (l.filter (p n)).count a = 0 := by
        refine List.count_eq_zero.2 fun hmem => hk ?_
        simpa [hp, eq_comm] using (List.mem_filter.1 hmem).2
      have hlt : k < n ↔ k < n + 1 := by omega
      simp [hzero, hlt]

/-- Parts of equal length `m`, one after another: part `d` starts at `d * m`. -/
theorem getElem?_flatMap_range {β : Type*} (f : ℕ → List β) {m d g : ℕ}
    (hf : ∀ d, (f d).length = m) {n : ℕ} (hd : d < n)
    (hg : g < m) : ((List.range n).flatMap f)[d * m + g]? = (f d)[g]? := by
  induction n with
  | zero => omega
  | succ n ih =>
    have hlen : ((List.range n).flatMap f).length = n * m := by
      rw [List.length_flatMap, List.map_congr_left fun d _ => hf d]
      simp
    rw [List.range_succ, List.flatMap_append, List.flatMap_singleton]
    by_cases hdn : d = n
    · subst hdn
      rw [List.getElem?_append_right (by omega), hlen]
      congr 1
      omega
    · have hlt : d * m + g < n * m := by
        have := Nat.mul_le_mul_right m (Nat.succ_le_of_lt (show d < n by omega))
        rw [Nat.succ_mul] at this
        omega
      rw [List.getElem?_append_left (by omega), ih (by omega)]

/-- Taking a part without repetitions out of a queue without repetitions. -/
theorem count_filter_notMem {l part : List α} {a : α} (hl : l.count a ≤ 1) (hpart : part.Nodup)
    (hsub : ∀ b ∈ part, b ∈ l) :
      (l.filter (fun b => decide (b ∉ part))).count a + part.count a = l.count a := by
  by_cases ha : a ∈ part
  · have hzero : (l.filter (fun b => decide (b ∉ part))).count a = 0 :=
      List.count_eq_zero.2 fun hmem => by simpa [ha] using (List.mem_filter.1 hmem).2
    have hpos := List.count_pos_iff.2 (hsub a ha)
    rw [hzero, List.count_eq_one_of_mem hpart ha]
    omega
  · rw [List.count_filter (by simpa using ha), List.count_eq_zero.2 ha, Nat.add_zero]

end Counting
