import NanoEngine.Disagg.Stages

/-!
# NanoEngine.Disagg.Ranges — the layer ranges of the stages

The ranges a split gives are not empty, follow one another and end at the last layer, and so every layer is on one
stage.
-/

namespace NanoEngine.Disagg

/-! ## Ranges that cover an interval -/

theorem range'_split {a b c : ℕ} (hab : a ≤ b) (hbc : b ≤ c) :
    List.range' a (c - a) = List.range' a (b - a) ++ List.range' b (c - b) := by
  have h := @List.range'_append_1 a (b - a) (c - b)
  rw [show a + (b - a) = b by omega, show b - a + (c - b) = c - a by omega] at h
  exact h.symm

/-- The ranges are not empty and follow one another from `a` to `b`. -/
def Covers : ℕ → ℕ → List (ℕ × ℕ) → Prop
  | a, b, [] => a = b
  | a, b, r :: rest => r.1 = a ∧ r.1 < r.2 ∧ Covers r.2 b rest

namespace Covers

variable {a b : ℕ} {ranges : List (ℕ × ℕ)}

theorem le (h : Covers a b ranges) : a ≤ b := by
  induction ranges generalizing a with
  | nil => exact Nat.le_of_eq h
  | cons r rest ih =>
    obtain ⟨h1, h2, h3⟩ := h
    have := ih h3
    omega

theorem bounds (h : Covers a b ranges) {r : ℕ × ℕ} (hr : r ∈ ranges) :
    a ≤ r.1 ∧ r.1 < r.2 ∧ r.2 ≤ b := by
  induction ranges generalizing a with
  | nil => simp at hr
  | cons r' rest ih =>
    obtain ⟨h1, h2, h3⟩ := h
    rcases List.mem_cons.1 hr with rfl | hr
    · exact ⟨h1.ge, h2, h3.le⟩
    · have := ih h3 hr
      omega

theorem append {c : ℕ} {ranges' : List (ℕ × ℕ)} (h : Covers a b ranges) (h' : Covers b c ranges') :
    Covers a c (ranges ++ ranges') := by
  induction ranges generalizing a with
  | nil =>
    obtain rfl : a = b := h
    exact h'
  | cons r rest ih => exact ⟨h.1, h.2.1, ih h.2.2⟩

/-- The layers of all ranges are those of the interval. -/
theorem flatMap_range' (h : Covers a b ranges) :
    ranges.flatMap (fun r => List.range' r.1 (r.2 - r.1)) = List.range' a (b - a) := by
  induction ranges generalizing a with
  | nil =>
    obtain rfl : a = b := h
    simp
  | cons r rest ih =>
    obtain ⟨rfl, h2, h3⟩ := h
    rw [List.flatMap_cons, ih h3, range'_split h2.le h3.le]

/-- A layer is on the stage whose range it is in. -/
theorem stage_iff (h : Covers a b ranges) {s : ℕ} {r : ℕ × ℕ} (hr : ranges[s]? = some r) (i : ℕ) :
    ppStageOfLayer i ranges = some s ↔ r.1 ≤ i ∧ i < r.2 := by
  induction ranges generalizing a s with
  | nil => simp at hr
  | cons r' rest ih =>
    obtain ⟨h1, h2, h3⟩ := h
    unfold ppStageOfLayer at ih ⊢
    rw [List.findIdx?_cons]
    cases s with
    | zero =>
      obtain rfl : r' = r := by simpa using hr
      by_cases hin : r'.1 ≤ i ∧ i < r'.2
      · simp [hin.1, hin.2]
      · have : (decide (r'.1 ≤ i) && decide (i < r'.2)) = false := by simpa using hin
        simp [this, hin]
    | succ s =>
      have hr' : rest[s]? = some r := by simpa using hr
      have hb := h3.bounds (List.mem_of_getElem? hr')
      by_cases hin : r'.1 ≤ i ∧ i < r'.2
      · have hout : ¬ (r.1 ≤ i ∧ i < r.2) := by omega
        simp only [hin.1, hin.2, decide_true, Bool.and_self, if_true, hout, iff_false]
        simp
      · have : (decide (r'.1 ≤ i) && decide (i < r'.2)) = false := by simpa using hin
        simp only [this, Bool.false_eq_true, if_false, Option.map_eq_some_iff,
          Nat.add_right_cancel_iff, exists_eq_right]
        exact ih h3 hr'

theorem exists_stage (h : Covers a b ranges) {i : ℕ} (ha : a ≤ i) (hb : i < b) :
    ∃ s : ℕ, ∃ r : ℕ × ℕ, ranges[s]? = some r ∧ r.1 ≤ i ∧ i < r.2 := by
  induction ranges generalizing a with
  | nil =>
    obtain rfl : a = b := h
    omega
  | cons r rest ih =>
    obtain ⟨rfl, h2, h3⟩ := h
    by_cases hi : i < r.2
    · exact ⟨0, r, rfl, ha, hi⟩
    · obtain ⟨s, r', hs, hr'⟩ := ih h3 (by omega)
      exact ⟨s + 1, r', hs, hr'⟩

theorem of_append {ranges' : List (ℕ × ℕ)} (h : Covers a b (ranges ++ ranges')) :
    ∃ m, Covers a m ranges ∧ Covers m b ranges' := by
  induction ranges generalizing a with
  | nil => exact ⟨a, rfl, h⟩
  | cons r rest ih =>
    obtain ⟨m, h1, h2⟩ := ih h.2.2
    exact ⟨m, ⟨h.1, h.2.1, h1⟩, h2⟩

theorem zip_tail (h : Covers a b ranges) :
    (ranges.zip ranges.tail).all (fun e => decide (e.1.1 < e.1.2) && decide (e.1.2 = e.2.1)) = true := by
  induction ranges generalizing a with
  | nil => rfl
  | cons r rest ih =>
    cases rest with
    | nil => rfl
    | cons r' rest =>
      have := ih h.2.2
      simp only [List.tail_cons, List.zip_cons_cons, List.all_cons, Bool.and_eq_true, decide_eq_true_eq] at this ⊢
      exact ⟨⟨h.2.1, h.2.2.1.symm⟩, this⟩

/-- What a stage keeps of a filtered interval. -/
theorem filter_stage (h : Covers a b ranges) {s : ℕ} {r : ℕ × ℕ} (hr : ranges[s]? = some r) (q : ℕ → Bool) :
    ((List.range' a (b - a)).filter q).filter (fun i => ppStageOfLayer i ranges = some s) =
      (List.range' r.1 (r.2 - r.1)).filter q := by
  obtain ⟨h1, h2, h3⟩ := h.bounds (List.mem_of_getElem? hr)
  have hsplit : List.range' a (b - a) =
      List.range' a (r.1 - a) ++ (List.range' r.1 (r.2 - r.1) ++ List.range' r.2 (b - r.2)) := by
    rw [range'_split h1 (h2.le.trans h3), range'_split h2.le h3]
  have hout : ∀ l : List ℕ, (∀ i ∈ l, i < r.1 ∨ r.2 ≤ i) →
      (l.filter q).filter (fun i => ppStageOfLayer i ranges = some s) = [] := by
    intro l hl
    rw [List.filter_eq_nil_iff]
    intro i hi
    have := hl i (List.mem_of_mem_filter hi)
    rw [decide_eq_true_eq, h.stage_iff hr]
    omega
  have hin : ((List.range' r.1 (r.2 - r.1)).filter q).filter (fun i => ppStageOfLayer i ranges = some s) =
      (List.range' r.1 (r.2 - r.1)).filter q := by
    rw [List.filter_eq_self]
    intro i hi
    have := List.mem_range'_1.1 (List.mem_of_mem_filter hi)
    rw [decide_eq_true_eq, h.stage_iff hr]
    omega
  have hbefore := hout (List.range' a (r.1 - a)) (fun i hi => by
    have := List.mem_range'_1.1 hi
    omega)
  have hbehind := hout (List.range' r.2 (b - r.2)) (fun i hi => by
    have := List.mem_range'_1.1 hi
    omega)
  rw [hsplit, List.filter_append, List.filter_append, List.filter_append, List.filter_append, hbefore, hin, hbehind,
    List.nil_append, List.append_nil]

end Covers

/-! ## The split into stages covers the layers -/

theorem covers_splitFrom {base remainder : ℕ} (hbase : 0 < base) (n stage start : ℕ) :
    Covers start (start + n * base + (min (stage + n) remainder - min stage remainder))
      (splitFrom base remainder stage start n) := by
  induction n generalizing stage start with
  | zero => simp [splitFrom, Covers]
  | succ n ih =>
    refine ⟨rfl, ?_, ?_⟩
    · show start < start + (base + if stage < remainder then 1 else 0)
      omega
    · have h := ih (stage + 1) (start + (base + if stage < remainder then 1 else 0))
      have harith : start + (base + if stage < remainder then 1 else 0) + n * base +
          (min (stage + 1 + n) remainder - min (stage + 1) remainder) =
          start + (n + 1) * base + (min (stage + (n + 1)) remainder - min stage remainder) := by
        rw [Nat.add_mul, Nat.one_mul]
        split <;> omega
      rw [harith] at h
      exact h

theorem length_splitFrom (base remainder stage start n : ℕ) :
    (splitFrom base remainder stage start n).length = n := by
  induction n generalizing stage start with
  | zero => rfl
  | succ n ih => simp [splitFrom, ih]

theorem covers_splitFrom_div {layers size : ℕ} (hsize : 0 < size) (hle : size ≤ layers) :
    Covers 0 layers (splitFrom (layers / size) (layers % size) 0 0 size) := by
  have h := @covers_splitFrom _ (layers % size) (Nat.div_pos hle hsize) size 0 0
  have hmod := Nat.mod_lt layers hsize
  have hdiv := Nat.div_add_mod layers size
  rwa [show 0 + size * (layers / size) + (min (0 + size) (layers % size) - min 0 (layers % size)) =
    layers by omega] at h

/-- The ranges the engine starts with cover the layers, one for each stage. -/
theorem ppLayerPartition_covers {layers pp : ℕ} {final : Option ℕ} {ranges : List (ℕ × ℕ)}
    (hpp : 1 ≤ pp) (hle : pp ≤ layers)
    (h : ppLayerPartition layers pp final = some ranges) : Covers 0 layers ranges ∧ ranges.length = pp := by
  unfold ppLayerPartition at h
  rw [max_eq_right hpp] at h
  by_cases h1 : pp = 1
  · rw [if_pos h1] at h
    obtain rfl : [(0, layers)] = ranges := by simpa using h
    refine ⟨⟨rfl, ?_, rfl⟩, h1.symm⟩
    show 0 < layers
    omega
  · rw [if_neg h1] at h
    cases final with
    | none =>
      obtain rfl : splitFrom (layers / pp) (layers % pp) 0 0 pp = ranges := by simpa using h
      exact ⟨covers_splitFrom_div hpp hle, length_splitFrom _ _ _ _ _⟩
    | some start =>
      simp only at h
      split at h
      · cases h
      · rename_i hstart
        split at h
        · cases h
        · rename_i henough
          push Not at hstart
          obtain rfl := Option.some.inj h
          refine ⟨(covers_splitFrom_div (by omega) (by omega)).append ⟨rfl, hstart.2, rfl⟩, ?_⟩
          rw [List.length_append, length_splitFrom, List.length_singleton]
          omega

end NanoEngine.Disagg
