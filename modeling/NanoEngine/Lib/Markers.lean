import Mathlib.Data.List.Infix
import Mathlib.Tactic.Common

/-!
# NanoEngine.Lib.Markers — looking for markers in a text that is still growing

* `find`, `findFirst`: the first place where a marker stands, and the first marker of several.
* `overlap`: the longest end of the text that may become a marker.
* `Dead ms t`: no marker begins at the start of `t`, whatever follows.  `Skips ms u t`: the same for every place of `u`
  in `u ++ t`.
* `Apart ms`: no marker begins inside another one.  Then a text is `u ++ v` with `u` skipped and `v` either held back or
  headed by a marker, and both searches find exactly this cut.
-/

namespace Markers

variable {α : Type*} [DecidableEq α]

/-- `text.find(marker)`. -/
def find (marker : List α) : List α → Option ℕ
  | [] => if marker = [] then some 0 else none
  | a :: text => if marker.isPrefixOf (a :: text) then some 0 else (find marker text).map (· + 1)

/-- The marker that is found first, with its place. -/
def findFirst : List (List α) → List α → Option (ℕ × List α)
  | [], _ => none
  | m :: ms, text =>
    match find m text, findFirst ms text with
    | none, r => r
    | some i, none => some (i, m)
    | some i, some (j, m') => if i ≤ j then some (i, m) else some (j, m')

/-- The loop over `range(size, longest, -1)`: the longest start of the marker, up to `size`, that ends the text. -/
def overlapFrom (text marker : List α) (longest : ℕ) : ℕ → ℕ
  | 0 => longest
  | size + 1 =>
    if size + 1 ≤ longest then longest
    else if (marker.take (size + 1)).isSuffixOf text then size + 1
    else overlapFrom text marker longest size

/-- The longest proper start of a marker that ends the text. -/
def overlap (markers : List (List α)) (text : List α) : ℕ :=
  markers.foldl (fun longest m => overlapFrom text m longest (min text.length (m.length - 1))) 0

/-- No marker begins at the start of the text, now or when the text goes on. -/
def Dead (ms : List (List α)) (t : List α) : Prop := ∀ m ∈ ms, ¬ m <+: t ∧ ¬ t <+: m

instance (ms : List (List α)) (t : List α) : Decidable (Dead ms t) := by
  unfold Dead
  infer_instance

/-- No marker begins at a place of `u` in `u ++ t`. -/
def Skips (ms : List (List α)) : List α → List α → Prop
  | [], _ => True
  | a :: u, t => Dead ms (a :: (u ++ t)) ∧ Skips ms u t

/-- The text is empty or may become a marker. -/
def Held (ms : List (List α)) (t : List α) : Prop := t = [] ∨ ∃ m ∈ ms, t <+: m ∧ t ≠ m

/-- Every marker is non-empty, none is the start of another, and none begins inside another. -/
def Apart (ms : List (List α)) : Prop :=
  ∀ m ∈ ms, m ≠ [] ∧ ∀ m' ∈ ms, (m <+: m' → m = m') ∧ ∀ j < m'.length, 0 < j → Dead [m] (m'.drop j)

instance (ms : List (List α)) : Decidable (Apart ms) := by
  unfold Apart
  infer_instance

variable {ms ms' : List (List α)} {m t u v b : List α}

omit [DecidableEq α] in
theorem Dead.append (h : Dead ms t) (b : List α) : Dead ms (t ++ b) := by
  intro m hm
  refine ⟨fun hp => ?_, fun hp => (h m hm).2 ((List.prefix_append t b).trans hp)⟩
  rcases List.prefix_or_prefix_of_prefix hp (List.prefix_append t b) with hmt | htm
  · exact (h m hm).1 hmt
  · exact (h m hm).2 htm

omit [DecidableEq α] in
theorem Dead.mono (hsub : ms' ⊆ ms) (h : Dead ms t) : Dead ms' t := fun m hm => h m (hsub hm)

namespace Skips

omit [DecidableEq α]

theorem append_left : Skips ms (u ++ v) t ↔ Skips ms u (v ++ t) ∧ Skips ms v t := by
  induction u with
  | nil => simp [Skips]
  | cons a u ih => simp only [List.cons_append, Skips, ih, List.append_assoc, and_assoc]

theorem append (h : Skips ms u t) (b : List α) : Skips ms u (t ++ b) := by
  induction u with
  | nil => trivial
  | cons a u ih =>
    refine ⟨?_, ih h.2⟩
    have := h.1.append b
    rwa [List.cons_append, List.append_assoc] at this

theorem mono (hsub : ms' ⊆ ms) (h : Skips ms u t) : Skips ms' u t := by
  induction u with
  | nil => trivial
  | cons a u ih => exact ⟨h.1.mono hsub, ih h.2⟩

/-- What is dead by itself is skipped before every text. -/
theorem of_dead (h : ∀ i < u.length, Dead ms (u.drop i)) (t : List α) : Skips ms u t := by
  induction u with
  | nil => trivial
  | cons a u ih =>
    refine ⟨?_, ih fun i hi => h (i + 1) (Nat.succ_lt_succ hi)⟩
    rw [← List.cons_append]
    exact (h 0 (Nat.succ_pos _)).append t

/-- A skipped text has no markers. -/
theorem free (h : Skips ms u t) (hm : m ∈ ms) (hne : m ≠ []) : ¬ m <:+: u := by
  induction u with
  | nil => exact fun hin => hne (List.infix_nil.1 hin)
  | cons a u ih =>
    intro hin
    rcases List.infix_cons_iff.1 hin with hp | hin
    · refine (h.1 m hm).1 (hp.trans ?_)
      rw [← List.cons_append]
      exact List.prefix_append _ t
    · exact ih h.2 hin

/-- A text without markers is skipped before a marker that is apart from them. -/
theorem of_free {u m : List α} (hm : ∀ m' ∈ ms, ∀ j < m'.length, 0 < j → Dead [m] (m'.drop j))
    (hfree : ∀ m' ∈ ms, m' ≠ [] ∧ ¬ m' <:+: u) (t : List α) : Skips ms u (m ++ t) := by
  induction u with
  | nil => trivial
  | cons a u ih =>
    have htail : ∀ m' ∈ ms, m' ≠ [] ∧ ¬ m' <:+: u := fun m' hm' =>
      ⟨(hfree m' hm').1, fun hin => (hfree m' hm').2 (hin.trans (List.suffix_cons a u).isInfix)⟩
    refine ⟨fun m' hm' => ?_, ih htail⟩
    -- a marker that is compared with `a :: u ++ m ++ t` beyond `u` is compared with `m` from inside
    have hlen : ∀ s, m' <+: (a :: u) ++ s → (a :: u).length < m'.length := by
      intro s hp
      by_contra hle
      have hinu : m' <+: a :: u := List.prefix_of_prefix_length_le hp (List.prefix_append _ _) (by omega)
      exact (hfree m' hm').2 hinu.isInfix
    have hinside : (a :: u) <+: m' → (a :: u).length < m'.length →
        ¬ m <+: m'.drop (a :: u).length ∧ ¬ m'.drop (a :: u).length <+: m := by
      intro _ hlt
      exact hm m' hm' _ hlt (by simp) m (List.mem_singleton.2 rfl)
    rw [← List.cons_append]
    constructor
    · intro hp
      have hlt := hlen _ hp
      have hu : (a :: u) <+: m' := List.prefix_of_prefix_length_le (List.prefix_append _ _) hp (by omega)
      obtain ⟨rest, rfl⟩ := hu
      rw [List.prefix_append_right_inj] at hp
      have hboth := hinside (List.prefix_append _ _) hlt
      rw [List.drop_left] at hboth
      rcases List.prefix_or_prefix_of_prefix hp (List.prefix_append m t) with h | h
      · exact hboth.2 h
      · exact hboth.1 h
    · intro hp
      have hu : (a :: u) <+: m' := (List.prefix_append _ _).trans hp
      obtain ⟨rest, rfl⟩ := hu
      rw [List.prefix_append_right_inj] at hp
      by_cases hrest : rest = []
      · subst hrest
        rw [List.append_nil] at hm'
        exact (hfree _ (by simpa using hm')).2 (by simp)
      · have hlt : (a :: u).length < ((a :: u) ++ rest).length := by
          have := List.length_pos_iff.2 hrest
          rw [List.length_append]
          omega
        have hboth := hinside (List.prefix_append _ _) hlt
        rw [List.drop_left] at hboth
        exact hboth.1 ((List.prefix_append m t).trans hp)

end Skips

/-! ## The cut of a text -/

omit [DecidableEq α] in
/-- Every text is a skipped part and a rest that is held back or headed by a marker. -/
theorem exists_cut (ms : List (List α)) (t : List α) :
    ∃ u v, t = u ++ v ∧ Skips ms u v ∧ (Held ms v ∨ ∃ m ∈ ms, m <+: v) := by
  induction t with
  | nil => exact ⟨[], [], rfl, trivial, .inl (.inl rfl)⟩
  | cons a t ih =>
    by_cases hhit : ∃ m ∈ ms, m <+: a :: t
    · exact ⟨[], a :: t, rfl, trivial, .inr hhit⟩
    · by_cases hheld : ∃ m ∈ ms, a :: t <+: m
      · obtain ⟨m, hm, hp⟩ := hheld
        refine ⟨[], a :: t, rfl, trivial, .inl (.inr ⟨m, hm, hp, fun heq => hhit ⟨m, hm, ?_⟩⟩)⟩
        rw [heq]
      · obtain ⟨u, v, rfl, hs, hrest⟩ := ih
        exact ⟨a :: u, v, rfl,
          ⟨fun m hm => ⟨fun hp => hhit ⟨m, hm, hp⟩, fun hp => hheld ⟨m, hm, hp⟩⟩, hs⟩, hrest⟩

/-! ## Finding a marker -/

theorem find_at_start (hp : m <+: t) : find m t = some 0 := by
  cases t with
  | nil => rw [List.prefix_nil.1 hp]; rfl
  | cons a t => exact if_pos (List.isPrefixOf_iff_prefix.2 hp)

theorem find_cons_of_not {a : α} (hp : ¬ m <+: a :: t) : find m (a :: t) = (find m t).map (· + 1) :=
  if_neg fun h => hp (List.isPrefixOf_iff_prefix.1 h)

theorem find_eq_none (h : ∀ u v, t = u ++ v → ¬ m <+: v) : find m t = none := by
  induction t with
  | nil =>
    refine if_neg fun hm : m = [] => h [] [] rfl ?_
    rw [hm]
  | cons a t ih =>
    rw [find_cons_of_not (h [] _ rfl), ih fun u v huv => h (a :: u) v (by rw [huv]; rfl), Option.map_none]

/-- `findFirst` moves on over a place where no marker stands. -/
theorem findFirst_cons {a : α} (h : ∀ m ∈ ms, ¬ m <+: a :: t) :
    findFirst ms (a :: t) = (findFirst ms t).map (fun r => (r.1 + 1, r.2)) := by
  induction ms with
  | nil => rfl
  | cons m ms ih =>
    have hrest := ih fun m' hm' => h m' (List.mem_cons_of_mem _ hm')
    unfold findFirst
    rw [find_cons_of_not (h m List.mem_cons_self), hrest]
    cases find m t with
    | none => rfl
    | some i =>
      cases findFirst ms t with
      | none => rfl
      | some r =>
        obtain ⟨j, m'⟩ := r
        simp only [Option.map_some, Nat.add_le_add_iff_right]
        split <;> rfl

/-- A marker at the start is the first one. -/
theorem findFirst_at_start (hfree : ∀ m' ∈ ms, m' <+: t → m' = m) (hm : m ∈ ms) (hp : m <+: t) :
    findFirst ms t = some (0, m) := by
  induction ms with
  | nil => cases hm
  | cons m₀ ms ih =>
    have htail : ∀ m' ∈ ms, m' <+: t → m' = m := fun m' hm' => hfree m' (List.mem_cons_of_mem _ hm')
    unfold findFirst
    by_cases h₀ : m₀ <+: t
    · rw [find_at_start h₀, hfree m₀ List.mem_cons_self h₀]
      cases findFirst ms t with
      | none => rfl
      | some r => simp
    · have hmem : m ∈ ms := (List.mem_cons.1 hm).resolve_left fun heq => h₀ (heq ▸ hp)
      rw [ih htail hmem]
      cases hfind : find m₀ t with
      | none => rfl
      | some i =>
        have hi : i ≠ 0 := by
          rintro rfl
          cases t with
          | nil =>
            unfold find at hfind
            split at hfind
            case isTrue hnil => exact h₀ (by rw [hnil])
            case isFalse => cases hfind
          | cons a t =>
            rw [find_cons_of_not h₀] at hfind
            obtain ⟨k, -, hk⟩ := Option.map_eq_some_iff.1 hfind
            omega
        simp [hi]

theorem findFirst_eq_none (h : ∀ m ∈ ms, ∀ u v, t = u ++ v → ¬ m <+: v) : findFirst ms t = none := by
  induction ms with
  | nil => rfl
  | cons m ms ih =>
    unfold findFirst
    rw [find_eq_none (h m List.mem_cons_self), ih fun m' hm' => h m' (List.mem_cons_of_mem _ hm')]

omit [DecidableEq α] in
theorem Apart.mono (hsub : ms' ⊆ ms) (h : Apart ms) : Apart ms' :=
  fun m hm => ⟨(h m (hsub hm)).1, fun m' hm' => (h m (hsub hm)).2 m' (hsub hm')⟩

omit [DecidableEq α] in
theorem Apart.eq_of_starts (h : Apart ms) {m' : List α} (hm : m ∈ ms) (hm' : m' ∈ ms)
    (hp : m <+: t) (hp' : m' <+: t) :
    m' = m := by
  rcases List.prefix_or_prefix_of_prefix hp hp' with hpre | hpre
  · exact (((h m hm).2 m' hm').1 hpre).symm
  · exact ((h m' hm').2 m hm).1 hpre

/-- **The search finds the marker after the skipped part.** -/
theorem findFirst_of_skips (h : Apart ms) (hm : m ∈ ms) (hs : Skips ms u (m ++ v)) :
    findFirst ms (u ++ (m ++ v)) = some (u.length, m) := by
  induction u with
  | nil =>
    exact findFirst_at_start (fun m' hm' hp => h.eq_of_starts hm hm' (List.prefix_append m v) hp) hm
      (List.prefix_append m v)
  | cons a u ih =>
    rw [List.cons_append, findFirst_cons fun m' hm' => (hs.1 m' hm').1, ih hs.2]
    rfl

omit [DecidableEq α] in
/-- A part that may become a marker contains none. -/
theorem Held.free (h : Apart ms) (hv : Held ms v) (hm : m ∈ ms) {x y : List α} (hxy : v = x ++ y) : ¬ m <+: y := by
  intro hp
  rcases hv with rfl | ⟨m', hm', hvm, hne⟩
  · have hy := (List.append_eq_nil_iff.1 hxy.symm).2
    subst hy
    exact (h m hm).1 (List.prefix_nil.1 hp)
  · obtain ⟨rest, rfl⟩ := hvm
    subst hxy
    cases x with
    | nil =>
      have := ((h m hm).2 _ hm').1 (hp.trans (List.prefix_append _ _))
      have hlen := hp.length_le
      rw [this] at hlen
      simp only [List.nil_append, List.length_append] at hlen
      exact hne (by rw [List.length_eq_zero_iff.1 (by omega : rest.length = 0), List.append_nil])
    | cons a x =>
      have hy : y ≠ [] := fun hnil => (h m hm).1 (List.prefix_nil.1 (hnil ▸ hp))
      have hdead := ((h m hm).2 _ hm').2 (a :: x).length
        (by
          have := List.length_pos_iff.2 hy
          simp only [List.length_append]
          omega)
        (by simp) m (List.mem_singleton.2 rfl)
      rw [List.append_assoc, List.drop_left] at hdead
      exact hdead.1 (hp.trans (List.prefix_append _ _))

omit [DecidableEq α] in
/-- What follows the marker does not matter. -/
theorem Skips.swap (h : Apart ms) (hm : m ∈ ms) (hs : Skips ms u (m ++ v)) (v' : List α) : Skips ms u (m ++ v') := by
  induction u with
  | nil => trivial
  | cons a u ih =>
    refine ⟨fun m' hm' => ?_, ih hs.2⟩
    -- no marker is longer than the text up to the end of `m`
    have hshort : ¬ (a :: (u ++ m)) <+: m' := by
      rintro ⟨rest, rfl⟩
      have hpos := List.length_pos_iff.2 (h m hm).1
      have hdead := ((h m hm).2 _ hm').2 (a :: u).length
        (by simp only [List.length_append, List.length_cons]; omega) (by simp) m (List.mem_singleton.2 rfl)
      rw [← List.cons_append, List.append_assoc, List.drop_left] at hdead
      exact hdead.1 (List.prefix_append m rest)
    have hpre : ∀ w, a :: (u ++ m) <+: a :: (u ++ (m ++ w)) := by
      intro w
      rw [← List.append_assoc, ← List.cons_append]
      exact List.prefix_append _ w
    refine ⟨fun hp => ?_, fun hp => hshort ((hpre v').trans hp)⟩
    rcases List.prefix_or_prefix_of_prefix hp (hpre v') with hlt | hgt
    · exact (hs.1 m' hm').1 (hlt.trans (hpre v))
    · exact hshort hgt

theorem findFirst_of_held (h : Apart ms) (hs : Skips ms u v) (hv : Held ms v) : findFirst ms (u ++ v) = none := by
  induction u with
  | nil => exact findFirst_eq_none fun m hm x y hxy => hv.free h hm hxy
  | cons a u ih =>
    rw [List.cons_append, findFirst_cons fun m' hm' => (hs.1 m' hm').1, ih hs.2]
    rfl

theorem find_append {i : ℕ} (h : find m t = some i) (b : List α) :
    find m (t ++ b) = some i ∧ i + m.length ≤ t.length := by
  induction t generalizing i with
  | nil =>
    unfold find at h
    split at h
    case isTrue hm =>
      cases h
      subst hm
      exact ⟨find_at_start List.nil_prefix, Nat.le_refl _⟩
    case isFalse => cases h
  | cons a t ih =>
    by_cases hp : m <+: a :: t
    · rw [find_at_start hp] at h
      cases h
      exact ⟨find_at_start (hp.trans (List.prefix_append _ _)), by simpa using hp.length_le⟩
    · rw [find_cons_of_not hp] at h
      obtain ⟨j, hj, rfl⟩ := Option.map_eq_some_iff.1 h
      obtain ⟨hfind, hlen⟩ := ih hj
      have hp' : ¬ m <+: a :: (t ++ b) := fun hp' => hp <| by
        refine List.prefix_of_prefix_length_le hp' ?_ (by simp only [List.length_cons]; omega)
        exact List.prefix_append (a :: t) b
      rw [List.cons_append, find_cons_of_not hp', hfind]
      exact ⟨rfl, by simp only [List.length_cons]; omega⟩

theorem find_take {i : ℕ} (h : find m t = some i) : find m (t.take (i + m.length)) = some i := by
  induction t generalizing i with
  | nil => simpa using h
  | cons a t ih =>
    by_cases hp : m <+: a :: t
    · rw [find_at_start hp] at h
      cases h
      rw [Nat.zero_add]
      exact find_at_start (List.prefix_take_iff.2 ⟨hp, Nat.le_refl _⟩)
    · rw [find_cons_of_not hp] at h
      obtain ⟨j, hj, rfl⟩ := Option.map_eq_some_iff.1 h
      have hp' : ¬ m <+: a :: t.take (j + m.length) := fun hp' => hp <| by
        refine hp'.trans ?_
        exact (List.cons_prefix_cons.2 ⟨rfl, List.take_prefix _ _⟩)
      rw [show j + 1 + m.length = (j + m.length) + 1 by omega, List.take_succ_cons, find_cons_of_not hp', ih hj]
      rfl

/-- The marker stands where it is found. -/
theorem prefix_drop_of_find {i : ℕ} (h : find m t = some i) : m <+: t.drop i := by
  induction t generalizing i with
  | nil =>
    unfold find at h
    split at h
    case isTrue hm => exact hm ▸ List.nil_prefix
    case isFalse => cases h
  | cons a t ih =>
    by_cases hp : m <+: a :: t
    · rw [find_at_start hp] at h
      cases h
      exact hp
    · rw [find_cons_of_not hp] at h
      obtain ⟨j, hj, rfl⟩ := Option.map_eq_some_iff.1 h
      exact ih hj

theorem not_prefix_drop_of_find {i : ℕ} (h : find m t = none) (hi : i ≤ t.length) : ¬ m <+: t.drop i := by
  induction t generalizing i with
  | nil =>
    unfold find at h
    split at h
    case isTrue => cases h
    case isFalse hm => exact fun hp => hm (List.prefix_nil.1 (by simpa using hp))
  | cons a t ih =>
    by_cases hp : m <+: a :: t
    · rw [find_at_start hp] at h
      cases h
    · rw [find_cons_of_not hp, Option.map_eq_none_iff] at h
      cases i with
      | zero => exact hp
      | succ i => exact ih h (by simpa using hi)

/-- It stands nowhere before. -/
theorem not_prefix_drop_of_lt_find {i j : ℕ} (h : find m t = some i) (hj : j < i) : ¬ m <+: t.drop j := by
  induction t generalizing i j with
  | nil =>
    unfold find at h
    split at h
    case isTrue =>
      cases h
      omega
    case isFalse => cases h
  | cons a t ih =>
    by_cases hp : m <+: a :: t
    · rw [find_at_start hp] at h
      cases h
      omega
    · rw [find_cons_of_not hp] at h
      obtain ⟨k, hk, rfl⟩ := Option.map_eq_some_iff.1 h
      cases j with
      | zero => exact hp
      | succ j => exact ih hk (by omega)

theorem findFirst_singleton (m t : List α) : findFirst [m] t = (find m t).map (fun i => (i, m)) := by
  unfold findFirst
  cases find m t <;> rfl

/-! ## What is held back -/

theorem overlapFrom_ge (t m : List α) (longest size : ℕ) : longest ≤ overlapFrom t m longest size := by
  induction size with
  | zero => exact le_rfl
  | succ size ih =>
    unfold overlapFrom
    split
    · exact le_rfl
    · split <;> omega

theorem overlapFrom_cases (t m : List α) (longest size : ℕ) : overlapFrom t m longest size = longest ∨
    overlapFrom t m longest size ≤ size ∧ m.take (overlapFrom t m longest size) <:+ t := by
  induction size with
  | zero => exact .inl rfl
  | succ size ih =>
    unfold overlapFrom
    split
    · exact .inl rfl
    · split
      case isTrue hs => exact .inr ⟨le_rfl, List.isSuffixOf_iff_suffix.1 hs⟩
      case isFalse => exact ih.imp_right fun h => ⟨by omega, h.2⟩

theorem le_overlapFrom {longest size k : ℕ} (hk : k ≤ size) (hs : m.take k <:+ t) :
    k ≤ overlapFrom t m longest size := by
  induction size with
  | zero => omega
  | succ size ih =>
    unfold overlapFrom
    split
    case isTrue => omega
    case isFalse =>
      split
      case isTrue => exact hk
      case isFalse hnot =>
        refine ih ?_
        rcases Nat.lt_or_ge size k with hlt | hle
        · have : k = size + 1 := by omega
          exact absurd (List.isSuffixOf_iff_suffix.2 (this ▸ hs)) hnot
        · exact hle

/-- Every proper start of a marker that ends the text is within the overlap. -/
theorem le_overlap {k : ℕ} (hm : m ∈ ms) (hk : k < m.length) (hs : m.take k <:+ t) : k ≤ overlap ms t := by
  have hlen : k ≤ min t.length (m.length - 1) := by
    have := hs.length_le
    rw [List.length_take] at this
    omega
  have hge : ∀ (l : List (List α)) (n : ℕ),
      n ≤ l.foldl (fun longest m => overlapFrom t m longest (min t.length (m.length - 1))) n := by
    intro l
    induction l with
    | nil => exact fun n => le_rfl
    | cons m l ih => exact fun n => (overlapFrom_ge t m n _).trans (ih _)
  unfold overlap
  generalize (0 : ℕ) = n
  induction ms generalizing n with
  | nil => cases hm
  | cons m₀ ms ih =>
    rcases List.mem_cons.1 hm with rfl | hm
    · exact (le_overlapFrom hlen hs).trans (hge ms _)
    · exact ih hm _

/-- The overlap is empty or a proper start of a marker that ends the text. -/
theorem overlap_cases (ms : List (List α)) (t : List α) :
    overlap ms t = 0 ∨ ∃ m ∈ ms, overlap ms t < m.length ∧ m.take (overlap ms t) <:+ t := by
  unfold overlap
  have hfold : ∀ (l : List (List α)) (n : ℕ), (∀ m ∈ l, m ∈ ms) →
    (n = 0 ∨ ∃ m ∈ ms, n < m.length ∧ m.take n <:+ t) →
      let k := l.foldl (fun longest m => overlapFrom t m longest (min t.length (m.length - 1))) n
      k = 0 ∨ ∃ m ∈ ms, k < m.length ∧ m.take k <:+ t := by
    intro l
    induction l with
    | nil => exact fun n _ hn => hn
    | cons m l ih =>
      intro n hl hn
      refine ih _ (fun m' hm' => hl m' (List.mem_cons_of_mem _ hm')) ?_
      dsimp only
      rcases overlapFrom_cases t m n (min t.length (m.length - 1)) with heq | ⟨hle, hs⟩
      · rw [heq]
        exact hn
      · by_cases hzero : overlapFrom t m n (min t.length (m.length - 1)) = 0
        · exact .inl hzero
        · exact .inr ⟨m, hl m List.mem_cons_self, by omega, hs⟩
  exact hfold ms 0 (fun _ h => h) (.inl rfl)

/-- **What is held back is the part after the skipped one.** -/
theorem overlap_of_skips (hs : Skips ms u v) (hv : Held ms v) : overlap ms (u ++ v) = v.length := by
  have hle : overlap ms (u ++ v) ≤ v.length := by
    rcases overlap_cases ms (u ++ v) with hzero | ⟨m, hm, hk, hsuffix⟩
    · omega
    · by_contra hgt
      -- a longer start of a marker would begin at a skipped place
      have hall : ∀ w, Skips ms w v → overlap ms (u ++ v) ≤ (w ++ v).length →
          ¬ m.take (overlap ms (u ++ v)) <:+ w ++ v := by
        intro w
        induction w with
        | nil =>
          intro _ hlen
          simp only [List.nil_append] at hlen
          omega
        | cons a w ih =>
          intro hw hlen hsuf
          rw [List.cons_append] at hsuf
          rcases List.suffix_cons_iff.1 hsuf with heq | hsuf
          · refine (hw.1 m hm).2 ?_
            rw [← heq]
            exact List.take_prefix _ _
          · refine ih hw.2 ?_ hsuf
            have := hsuf.length_le
            rw [List.length_take] at this
            omega
      have hlen := hsuffix.length_le
      rw [List.length_take] at hlen
      exact hall u hs (by omega) hsuffix
  refine le_antisymm hle ?_
  rcases hv with rfl | ⟨m, hm, hp, hne⟩
  · exact Nat.zero_le _
  · have htake : m.take v.length = v := (List.prefix_iff_eq_take.1 hp).symm
    have hlt : v.length < m.length := lt_of_le_of_ne hp.length_le fun heq => hne (hp.eq_of_length heq)
    refine le_overlap hm hlt ?_
    rw [htake]
    exact List.suffix_append u v

/-- **Both searches find the cut of the text.** -/
theorem cut_cases (h : Apart ms) (t : List α) :
    (∃ u m v, m ∈ ms ∧ t = u ++ (m ++ v) ∧ Skips ms u (m ++ v) ∧ findFirst ms t = some (u.length, m)) ∨
      ∃ u v, t = u ++ v ∧ Skips ms u v ∧ Held ms v ∧ findFirst ms t = none ∧ overlap ms t = v.length := by
  obtain ⟨u, v, rfl, hs, hv | ⟨m, hm, rest, rfl⟩⟩ := exists_cut ms t
  · exact .inr ⟨u, v, rfl, hs, hv, findFirst_of_held h hs hv, overlap_of_skips hs hv⟩
  · exact .inl ⟨u, m, rest, hm, rfl, hs, findFirst_of_skips h hm hs⟩

end Markers
