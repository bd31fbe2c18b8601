import Mathlib.Algebra.BigOperators.Group.List.Basic
import Mathlib.Order.CompletePartialOrder
import Mathlib.Order.Interval.Set.Disjoint
import Mathlib.Tactic.Linarith
import Mathlib.Tactic.Ring

/-!
# NanoEngine.Lib.Strided — contiguous tensors and the places of their parts

A shape is the list of the dimensions, an index a list of coordinates.  An index that is shorter than the shape stands
for the part of the tensor with these leading coordinates.

* `offset`, `strides`: row-major places, in entries.
* `offset_add_le`, `offset_separate`: the parts at different leading coordinates lie in the tensor and do not overlap.
* `Placed`: a family of byte ranges, and `Placed.of_offset`, when it is given by the parts of a tensor.
-/

namespace Strided

/-- Where the part at `idx` starts. -/
def offset : List ℕ → List ℕ → ℕ
  | _ :: dims, i :: idx => i * dims.prod + offset dims idx
  | _, _ => 0

/-- `Tensor.stride()` of a contiguous tensor: an empty dimension counts as one. -/
def strides : List ℕ → List ℕ
  | [] => []
  | _ :: dims => (dims.map (max · 1)).prod :: strides dims

/-- The tensor has an entry with the leading coordinates `idx`. -/
def Within : List ℕ → List ℕ → Prop
  | dims, [] => ∀ d ∈ dims, 0 < d
  | [], _ :: _ => False
  | d :: dims, i :: idx => i < d ∧ Within dims idx

@[simp] theorem offset_nil (shape : List ℕ) : offset shape [] = 0 := by cases shape <;> rfl

@[simp] theorem offset_cons (d i : ℕ) (dims idx : List ℕ) :
    offset (d :: dims) (i :: idx) = i * dims.prod + offset dims idx := rfl

@[simp] theorem within_cons {d i : ℕ} {dims idx : List ℕ} :
    Within (d :: dims) (i :: idx) ↔ i < d ∧ Within dims idx := .rfl

theorem within_nil {dims : List ℕ} : Within dims [] ↔ ∀ d ∈ dims, 0 < d := by cases dims <;> rfl

variable {shape i j : List ℕ}

theorem Within.pos (h : Within shape i) : ∀ d ∈ shape, 0 < d := by
  induction shape generalizing i with
  | nil => exact fun d hd => absurd hd List.not_mem_nil
  | cons d dims ih =>
    cases i with
    | nil => exact h
    | cons k idx => exact List.forall_mem_cons.2 ⟨Nat.zero_lt_of_lt h.1, ih h.2⟩

theorem offset_add_le (h : Within shape i) : offset shape i + (shape.drop i.length).prod ≤ shape.prod := by
  induction shape generalizing i with
  | nil =>
    cases i with
    | nil => rfl
    | cons => exact h.elim
  | cons d dims ih =>
    cases i with
    | nil => simp
    | cons k idx =>
      have hrest := ih h.2
      have hmul := Nat.mul_le_mul_right dims.prod (Nat.succ_le_of_lt h.1)
      rw [offset_cons, List.length_cons, List.drop_succ_cons, List.prod_cons]
      rw [Nat.succ_mul] at hmul
      omega

theorem offset_separate (hi : Within shape i) (hj : Within shape j) (hlen : i.length = j.length) (hne : i ≠ j) :
    offset shape i + (shape.drop i.length).prod ≤ offset shape j ∨
      offset shape j + (shape.drop i.length).prod ≤ offset shape i := by
  induction shape generalizing i j with
  | nil =>
    cases i with
    | nil => exact absurd (List.eq_nil_of_length_eq_zero hlen.symm).symm hne
    | cons => exact hi.elim
  | cons d dims ih =>
    cases i with
    | nil => exact absurd (List.eq_nil_of_length_eq_zero hlen.symm).symm hne
    | cons a idx =>
      cases j with
      | nil => cases hlen
      | cons b jdx =>
        have hlen' : idx.length = jdx.length := Nat.succ.inj hlen
        have hfit := offset_add_le hi.2
        have hfit' := offset_add_le hj.2
        rw [← hlen'] at hfit'
        simp only [offset_cons, List.length_cons, List.drop_succ_cons]
        rcases lt_trichotomy a b with hab | rfl | hab
        · have hmul := Nat.mul_le_mul_right dims.prod (Nat.succ_le_of_lt hab)
          rw [Nat.succ_mul] at hmul
          omega
        · have hrest := ih hi.2 hj.2 hlen' fun heq => hne (congrArg (List.cons a) heq)
          omega
        · have hmul := Nat.mul_le_mul_right dims.prod (Nat.succ_le_of_lt hab)
          rw [Nat.succ_mul] at hmul
          omega

theorem map_max_one (h : ∀ d ∈ shape, 0 < d) : shape.map (max · 1) = shape := by
  conv_rhs => rw [← List.map_id shape]
  refine List.map_congr_left fun d hd => ?_
  have := h d hd
  show max d 1 = d
  omega

/-- The first two strides of a tensor that has an entry are the products of the later dimensions. -/
theorem strides_pair {a b : ℕ} {dims : List ℕ} (h : Within (a :: b :: dims) i) :
    (strides (a :: b :: dims)).getD 0 0 = b * dims.prod ∧ (strides (a :: b :: dims)).getD 1 0 = dims.prod ∧
      0 < dims.prod := by
  have hpos := (List.forall_mem_cons.1 h.pos).2
  have hrest := (List.forall_mem_cons.1 hpos).2
  refine ⟨?_, ?_, List.prod_pos_iff_forall_pos_nat.2 hrest⟩
  · show ((b :: dims).map (max · 1)).prod = b * dims.prod
    rw [map_max_one hpos, List.prod_cons]
  · show (dims.map (max · 1)).prod = dims.prod
    rw [map_max_one hrest]

/-- The ranges `[offset x, offset x + len)` of the coordinates lie in `size` bytes and do not overlap. -/
structure Placed {ι : Type*} (coords : Set ι) (offset : ι → Option ℕ) (len size : ℕ) : Prop where
  inside : ∀ x ∈ coords, ∃ a, offset x = some a ∧ a + len ≤ size
  disjoint : ∀ x ∈ coords, ∀ y ∈ coords, x ≠ y → ∀ a b, offset x = some a → offset y = some b →
    Disjoint (Set.Ico a (a + len)) (Set.Ico b (b + len))

theorem Placed.of_offset {ι : Type*} {coords : Set ι} {place : ι → Option ℕ}
    {len itemsize k : ℕ} (key : ι → List ℕ)
    (hkey : Set.InjOn key coords) (hlen : ∀ x, (key x).length = k) (hin : ∀ x ∈ coords, Within shape (key x))
    (hplace : ∀ x ∈ coords, place x = some (offset shape (key x) * itemsize))
    (hfits : len ≤ (shape.drop k).prod * itemsize) : Placed coords place len (shape.prod * itemsize) where
  inside := by
    intro x hx
    have h := Nat.mul_le_mul_right itemsize (offset_add_le (hin x hx))
    rw [hlen, Nat.add_mul] at h
    exact ⟨_, hplace x hx, by omega⟩
  disjoint := by
    intro x hx y hy hne a b ha hb
    obtain rfl := Option.some.inj ((hplace x hx).symm.trans ha)
    obtain rfl := Option.some.inj ((hplace y hy).symm.trans hb)
    have hsep := offset_separate (hin x hx) (hin y hy) ((hlen x).trans (hlen y).symm) fun heq => hne (hkey hx hy heq)
    rw [hlen] at hsep
    rw [Set.Ico_disjoint_Ico]
    rcases hsep with h | h
    · have hmul := Nat.mul_le_mul_right itemsize h
      rw [Nat.add_mul] at hmul
      omega
    · have hmul := Nat.mul_le_mul_right itemsize h
      rw [Nat.add_mul] at hmul
      omega

end Strided
