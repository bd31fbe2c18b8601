import Mathlib.Data.List.Nodup
import Mathlib.Data.List.Perm.Subperm
import Mathlib.Data.Option.Basic
import NanoEngine.Lib.Updates

/-!
# NanoEngine.Lib.Permutations — lists of indices that permute

A list of indices permutes `n` entries when it is a permutation of `range n`.

* `perm_range_of_nodup`: distinct indices below `n`, and `n` of them.
* `gather_perm`: the entries of a list, taken by a permutation.
* `blocks_perm`: blocks of consecutive numbers.
* `inverse`: the positions scattered to the entries; `getElem?_inverse`, `getElem?_of_inverse`, `inverse_perm`.
-/

namespace Updates

variable {α : Type*} {l : List α} {perm : List ℕ} {n : ℕ}

theorem perm_range_of_nodup (hnodup : perm.Nodup) (hlt : ∀ i ∈ perm, i < n) (hlen : n ≤ perm.length) :
    perm.Perm (List.range n) := by
  have hsub : perm.Subperm (List.range n) := List.subperm_of_subset hnodup fun i hi => List.mem_range.2 (hlt i hi)
  exact hsub.perm_of_length_le (by rwa [List.length_range])

theorem map_getElem?_range (l : List α) : (List.range l.length).map (l[·]?) = l.map some := by
  refine List.ext_getElem? fun i => ?_
  rw [List.getElem?_map, List.getElem?_map]
  rcases Nat.lt_or_ge i l.length with hi | hi
  · rw [List.getElem?_range hi, List.getElem?_eq_getElem hi]
    simp [List.getElem?_eq_getElem hi]
  · rw [List.getElem?_eq_none (by simpa using hi), List.getElem?_eq_none hi]
    rfl

/-- Taken by a permutation, the entries are those of the list. -/
theorem gather_perm (h : perm.Perm (List.range l.length)) : ∃ l', gather l perm = some l' ∧ l'.Perm l := by
  obtain ⟨l', hl'⟩ := gather_of_lt fun i hi => List.mem_range.1 (h.mem_iff.1 hi)
  refine ⟨l', hl', (List.map_perm_map_iff (Option.some_injective α)).1 ?_⟩
  rw [← gather_eq_some_iff.1 hl', ← map_getElem?_range]
  exact h.map _

theorem gather_zip {β : Type*} {a a' : List α} {b b' : List β} {indices : List ℕ} (ha : gather a indices = some a')
    (hb : gather b indices = some b') : gather (a.zip b) indices = some (a'.zip b') := by
  refine gather_eq_some_iff.2 (List.ext_getElem? fun i => ?_)
  have ha' := congrArg (·[i]?) (gather_eq_some_iff.1 ha)
  have hb' := congrArg (·[i]?) (gather_eq_some_iff.1 hb)
  simp only [List.getElem?_map] at ha' hb' ⊢
  cases hi : indices[i]? with
  | none =>
    rw [hi, Option.map_none, eq_comm, Option.map_eq_none_iff] at ha'
    have hlen : a'.length ≤ i := List.getElem?_eq_none_iff.1 ha'
    rw [Option.map_none, eq_comm, Option.map_eq_none_iff, List.getElem?_eq_none_iff, List.length_zip]
    exact Nat.le_trans (Nat.min_le_left _ _) hlen
  | some j =>
    rw [hi, Option.map_some, eq_comm] at ha' hb'
    obtain ⟨x, hx, hax⟩ := Option.map_eq_some_iff.1 ha'
    obtain ⟨y, hy, hby⟩ := Option.map_eq_some_iff.1 hb'
    have hold : (a.zip b)[j]? = some (x, y) := List.getElem?_zip_eq_some.2 ⟨hax.symm, hby.symm⟩
    have hnew : (a'.zip b')[i]? = some (x, y) := List.getElem?_zip_eq_some.2 ⟨hx, hy⟩
    rw [Option.map_some, hold, hnew, Option.map_some]

/-- The position of every entry: `inv[perm[i]] = i`. -/
def inverse (perm : List ℕ) : List ℕ :=
  scatter (List.replicate perm.length 0) perm (List.range perm.length)

@[simp] theorem length_inverse (perm : List ℕ) : (inverse perm).length = perm.length := by
  rw [inverse, length_scatter, List.length_replicate]

theorem getElem?_inverse (h : perm.Perm (List.range n)) {i k : ℕ} (hi : perm[i]? = some k) :
    (inverse perm)[k]? = some i := by
  have hlen : perm.length = n := by simpa using h.length_eq
  have hk : k < n := List.mem_range.1 (h.mem_iff.1 (List.mem_of_getElem? hi))
  have hi' : i < perm.length := (List.getElem?_eq_some_iff.1 hi).1
  refine getElem?_scatter (h.nodup_iff.2 List.nodup_range) hi (List.getElem?_range hi') ?_
  rwa [List.length_replicate, hlen]

/-- The numbers block by block, the blocks in any order. -/
theorem blocks_perm (h : perm.Perm (List.range n)) (w : ℕ) :
    (perm.flatMap fun i => (List.range w).map fun k => i * w + k).Perm (List.range (n * w)) := by
  refine (h.flatMap_right _).trans (List.Perm.of_eq ?_)
  clear h
  induction n with
  | zero => rw [Nat.zero_mul, List.range_zero, List.flatMap_nil]
  | succ n ih => rw [List.range_succ, List.flatMap_append, ih, List.flatMap_singleton, Nat.succ_mul, List.range_add]

/-- The inverse gives the position back. -/
theorem exists_of_inverse (h : perm.Perm (List.range n)) {k : ℕ} (hk : k < n) :
    ∃ i < n, perm[i]? = some k ∧ (inverse perm)[k]? = some i := by
  have hlen : perm.length = n := by simpa using h.length_eq
  obtain ⟨i, hi⟩ := List.mem_iff_getElem?.1 (h.mem_iff.2 (List.mem_range.2 hk))
  exact ⟨i, hlen ▸ (List.getElem?_eq_some_iff.1 hi).1, hi, getElem?_inverse h hi⟩

theorem getElem?_of_inverse (h : perm.Perm (List.range n)) {i k : ℕ} (hi : (inverse perm)[k]? = some i) :
    i < n ∧ perm[i]? = some k := by
  have hk : k < (inverse perm).length := (List.getElem?_eq_some_iff.1 hi).1
  rw [length_inverse, h.length_eq, List.length_range] at hk
  obtain ⟨i', hi', hperm, hinv⟩ := exists_of_inverse h hk
  obtain rfl := Option.some.inj (hi.symm.trans hinv)
  exact ⟨hi', hperm⟩

theorem inverse_perm (h : perm.Perm (List.range n)) : (inverse perm).Perm (List.range n) := by
  have hlen : perm.length = n := by simpa using h.length_eq
  refine perm_range_of_nodup (List.nodup_iff_getElem?_ne_getElem?.2 fun i j hij hj heq => ?_) (fun i hi => ?_) ?_
  · obtain ⟨v, hv⟩ : ∃ v, (inverse perm)[j]? = some v := ⟨_, List.getElem?_eq_getElem hj⟩
    have hval := (getElem?_of_inverse h (heq.trans hv)).2.symm.trans (getElem?_of_inverse h hv).2
    exact (Nat.ne_of_lt hij) (Option.some.inj hval)
  · obtain ⟨k, hk⟩ := List.mem_iff_getElem?.1 hi
    exact (getElem?_of_inverse h hk).1
  · exact Nat.le_of_eq (hlen.symm.trans (length_inverse perm).symm)

end Updates
