import Mathlib.Data.List.Basic
import Mathlib.Tactic.Common

/-!
# NanoEngine.Lib.Buffer — buffers of a fixed size that are filled from the front

* `Buffer α n`: `n` cells.  `slice m` is what a reader of the first `m` cells sees.
* `setFront`: the first cells are replaced, the others keep what was there.
* `copyFront`: the assignment of a tensor to a slice, with its check of the shapes and its broadcast of one cell.
* `slice_full_setFront`: after a fill the slice is the source and then the fill.
-/

namespace Buffers

structure Buffer (α : Type*) (n : ℕ) where
  cells : List α
  length_cells : cells.length = n

namespace Buffer

variable {α : Type*} {n m k : ℕ}

def full (n : ℕ) (v : α) : Buffer α n := ⟨List.replicate n v, List.length_replicate⟩

def slice (b : Buffer α n) (m : ℕ) : List α := b.cells.take m

def setFront (b : Buffer α n) (src : List α) : Buffer α n where
  cells := src.take n ++ b.cells.drop src.length
  length_cells := by
    rw [List.length_append, List.length_take, List.length_drop, b.length_cells]
    omega

/-- `b[:k] = src`. -/
def copyFront (b : Buffer α n) (k : ℕ) (src : List α) : Option (Buffer α n) :=
  if src.length = min k n then some (b.setFront src)
  else
    match src with
    | [x] => some (b.setFront (List.replicate (min k n) x))
    | _ => none

/-- `b[i:j] = v`. -/
def fillRange (b : Buffer α n) (i j : ℕ) (v : α) : Buffer α n where
  cells := b.cells.mapIdx fun k x => if i ≤ k ∧ k < j then v else x
  length_cells := by rw [List.length_mapIdx, b.length_cells]

theorem length_slice (b : Buffer α n) (hm : m ≤ n) : (b.slice m).length = m := by
  rw [slice, List.length_take, b.length_cells, Nat.min_eq_left hm]

theorem slice_full (v : α) (hm : m ≤ n) : (full n v).slice m = List.replicate m v := by
  rw [slice, full, List.take_replicate, Nat.min_eq_left hm]

theorem slice_setFront (b : Buffer α n) {src : List α} (hsrc : src.length ≤ m) (hm : m ≤ n) :
    (b.setFront src).slice m = src ++ (b.slice m).drop src.length := by
  have htake : src.take n = src := List.take_of_length_le (Nat.le_trans hsrc hm)
  simp only [slice, setFront, htake, List.take_append, List.take_of_length_le hsrc, List.drop_take]

theorem slice_setFront_length (b : Buffer α n) {src : List α} (hsrc : src.length ≤ n) :
    (b.setFront src).slice src.length = src := by
  rw [slice_setFront b (Nat.le_refl src.length) hsrc,
    List.drop_of_length_le (Nat.le_of_eq (length_slice b hsrc)), List.append_nil]

/-- After a fill nothing of the old cells is left. -/
theorem slice_full_setFront (v : α) {src : List α} (hsrc : src.length ≤ m) (hm : m ≤ n) :
    ((full n v).setFront src).slice m = src ++ List.replicate (m - src.length) v := by
  rw [slice_setFront _ hsrc hm, slice_full v hm, List.drop_replicate]

theorem cells_full_setFront (v : α) {src : List α} (hsrc : src.length ≤ n) :
    ((full n v).setFront src).cells = src ++ List.replicate (n - src.length) v := by
  have hslice := slice_full_setFront v hsrc (Nat.le_refl n)
  rwa [slice, List.take_of_length_le (Nat.le_of_eq (length_cells _))] at hslice

theorem copyFront_length (b : Buffer α n) {src : List α} (hk : src.length = k) (hn : k ≤ n) :
    b.copyFront k src = some (b.setFront src) := by
  unfold copyFront
  rw [if_pos (by omega)]

theorem slice_fillRange (b : Buffer α n) (v : α) (hk : k ≤ m) (hm : m ≤ n) :
    (b.fillRange k m v).slice m = b.slice k ++ List.replicate (m - k) v := by
  refine List.ext_getElem ?_ fun i hi hi' => ?_
  · rw [length_slice _ hm, List.length_append, length_slice b (Nat.le_trans hk hm), List.length_replicate]
    omega
  · have hlt : i < m := by rwa [length_slice _ hm] at hi
    by_cases hik : i < k
    · have hlen : i < (b.slice k).length := by rwa [length_slice b (Nat.le_trans hk hm)]
      rw [List.getElem_append_left hlen]
      simp [slice, fillRange, Nat.not_le.2 hik]
    · rw [List.getElem_append_right (by rw [length_slice b (Nat.le_trans hk hm)]; omega)]
      simp [slice, fillRange, Nat.not_lt.1 hik, hlt]

/-- A source that is neither as long as the slice nor a single cell does not fit. -/
theorem copyFront_isSome {b : Buffer α n} {src : List α} (h : (b.copyFront k src).isSome) :
    src.length = min k n ∨ src.length = 1 := by
  unfold copyFront at h
  split at h
  case isTrue hlen => exact .inl hlen
  case isFalse =>
    split at h
    case h_1 => exact .inr rfl
    case h_2 => cases h

/-- `b[:rows, :cols] = src` for a source of `rows` rows and `cols` columns. -/
def copyRows {w : ℕ} (b : Buffer (Buffer α w) n) (rows cols : ℕ)
    (src : List (List α)) : Option (Buffer (Buffer α w) n) :=
  if (rows = min rows n ∨ rows = 1) ∧ (cols = min cols w ∨ cols = 1) then
    let src := if rows = min rows n then src else (List.replicate (min rows n) src).flatten
    let src := if cols = min cols w then src else src.map fun row => (List.replicate (min cols w) row).flatten
    some (b.setFront ((b.cells.zip src).map fun r => r.1.setFront r.2))
  else none

theorem copyRows_le {w rows cols : ℕ} (b : Buffer (Buffer α w) n) (src : List (List α))
    (hrows : rows ≤ n) (hcols : cols ≤ w) :
    b.copyRows rows cols src = some (b.setFront ((b.cells.zip src).map fun r => r.1.setFront r.2)) := by
  have hr : rows = min rows n := by omega
  have hc : cols = min cols w := by omega
  unfold copyRows
  rw [if_pos ⟨.inl hr, .inl hc⟩]
  dsimp only
  rw [if_pos hr, if_pos hc]

theorem zip_replicate {β : Type*} (x : α) {l : List β} (h : l.length ≤ n) :
    (List.replicate n x).zip l = l.map fun y => (x, y) := by
  induction l generalizing n with
  | nil => simp
  | cons y l ih =>
    obtain ⟨n, rfl⟩ := Nat.exists_eq_succ_of_ne_zero (Nat.ne_of_gt (Nat.lt_of_lt_of_le (Nat.succ_pos _) h))
    rw [List.replicate_succ, List.zip_cons_cons, List.map_cons, ih (Nat.le_of_succ_le_succ h)]

/-- Rows copied into a buffer that was filled before: each is the source row and then the fill. -/
theorem slice_copyRows_full {w : ℕ} (v : α) {src : List (List α)} (hsrc : src.length ≤ m) (hm : m ≤ n)
    (hw : ∀ row ∈ src, row.length ≤ w) :
    (((full n (full w v)).setFront (((full n (full w v)).cells.zip src).map fun r => r.1.setFront r.2)).slice m).map
        cells =
      (src.map fun row => row ++ List.replicate (w - row.length) v) ++
        List.replicate (m - src.length) (List.replicate w v) := by
  have hzip : (full n (full w v)).cells.zip src = src.map fun row => (full w v, row) :=
    zip_replicate (full w v) (Nat.le_trans hsrc hm)
  rw [hzip, List.map_map, slice_full_setFront _ (by rwa [List.length_map]) hm, List.map_append, List.map_map,
    List.length_map, List.map_replicate]
  congr 1
  exact List.map_congr_left fun row hrow => cells_full_setFront v (hw row hrow)

end Buffer

end Buffers
