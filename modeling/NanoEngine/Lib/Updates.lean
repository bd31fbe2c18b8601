import Mathlib.Data.List.Nodup
import Mathlib.Logic.Function.Basic
import Mathlib.Tactic.Common

/-!
# NanoEngine.Lib.Updates — a family updated entry by entry

* `updateEach key g l f`: for every `x` of `l` in order, the entry `key x` of `f` goes through `g x`.
* `reshape`: a flat list cut into rows of one width.
* `gather`, `scatter`: the entries of a list at given indices read and written.
-/

namespace Updates

variable {ι κ β : Type*} [DecidableEq κ]

def updateEach (key : ι → κ) (g : ι → β → β) (l : List ι) (f : κ → β) : κ → β :=
  l.foldl (fun f x => Function.update f (key x) (g x (f (key x)))) f

variable {key : ι → κ} {g : ι → β → β}

@[simp] theorem updateEach_nil (f : κ → β) : updateEach key g [] f = f := rfl

@[simp] theorem updateEach_cons (x : ι) (l : List ι) (f : κ → β) :
    updateEach key g (x :: l) f = updateEach key g l (Function.update f (key x) (g x (f (key x)))) := rfl

theorem updateEach_map {γ : Type*} (h : γ → ι) (l : List γ) (f : κ → β) :
    updateEach key g (l.map h) f = updateEach (fun x => key (h x)) (fun x => g (h x)) l f :=
  List.foldl_map

theorem updateEach_of_notMem {l : List ι} {k : κ} (hk : k ∉ l.map key) (f : κ → β) :
    updateEach key g l f k = f k := by
  induction l generalizing f with
  | nil => rfl
  | cons x l ih =>
    rw [List.map_cons, List.mem_cons, not_or] at hk
    rw [updateEach_cons, ih hk.2, Function.update_of_ne hk.1]

/-- With distinct keys every entry goes through its own update once. -/
theorem updateEach_of_mem {l : List ι} (hl : (l.map key).Nodup) {x : ι} (hx : x ∈ l) (f : κ → β) :
    updateEach key g l f (key x) = g x (f (key x)) := by
  induction l generalizing f with
  | nil => cases hx
  | cons y l ih =>
    rw [List.map_cons, List.nodup_cons] at hl
    rw [updateEach_cons]
    rcases List.mem_cons.1 hx with rfl | hx
    · rw [updateEach_of_notMem hl.1, Function.update_self]
    · have hne : key x ≠ key y := fun heq => hl.1 (heq ▸ List.mem_map_of_mem hx)
      rw [ih hl.2 hx, Function.update_of_ne hne]

/-- Entries written by lists with the same values for `k` agree, as long as there is one value. -/
theorem updateEach_snd_congr {l l' : List (κ × β)} {k : κ} (hmem : ∀ v, (k, v) ∈ l ↔ (k, v) ∈ l')
    (hfun : ∀ v v', (k, v) ∈ l → (k, v') ∈ l → v = v') (f : κ → β) :
    updateEach Prod.fst (fun x _ => x.2) l f k = updateEach Prod.fst (fun x _ => x.2) l' f k := by
  have hval : ∀ (l : List (κ × β)) (v : β) (f : κ → β), (k, v) ∈ l →
    (∀ v', (k, v') ∈ l → v' = v) →
      updateEach Prod.fst (fun x _ => x.2) l f k = v := by
    intro l
    induction l with
    | nil => intro v f hv; cases hv
    | cons x l ih =>
      intro v f hv hone
      rw [updateEach_cons]
      by_cases hl : k ∈ l.map Prod.fst
      · obtain ⟨y, hy, rfl⟩ := List.mem_map.1 hl
        have hyv : y.2 = v := hone y.2 (List.mem_cons_of_mem _ hy)
        exact ih v _ (hyv ▸ hy) fun v' hv' => hone v' (List.mem_cons_of_mem _ hv')
      · rw [updateEach_of_notMem hl]
        rcases List.mem_cons.1 hv with rfl | hv
        · exact Function.update_self _ _ _
        · exact absurd (List.mem_map_of_mem hv) hl
  by_cases hex : ∃ v, (k, v) ∈ l
  · obtain ⟨v, hv⟩ := hex
    rw [hval l v f hv fun v' hv' => hfun v' v hv' hv,
      hval l' v f ((hmem v).1 hv) fun v' hv' => hfun v' v ((hmem v').2 hv') hv]
  · have hno : k ∉ l.map Prod.fst := by
      rintro hk
      obtain ⟨x, hx, rfl⟩ := List.mem_map.1 hk
      exact hex ⟨x.2, hx⟩
    have hno' : k ∉ l'.map Prod.fst := by
      rintro hk
      obtain ⟨x, hx, rfl⟩ := List.mem_map.1 hk
      exact hex ⟨x.2, (hmem x.2).2 hx⟩
    rw [updateEach_of_notMem hno, updateEach_of_notMem hno']

theorem updateEach_congr {g' : ι → β → β} {l : List ι} (h : ∀ x ∈ l, g x = g' x) (f : κ → β) :
    updateEach key g l f = updateEach key g' l f :=
  List.foldl_ext _ _ _ fun f x hx => by rw [h x hx]

theorem updateEach_append (l l' : List ι) (f : κ → β) :
    updateEach key g (l ++ l') f = updateEach key g l' (updateEach key g l f) :=
  List.foldl_append

/-- `n` rows of width `w`. -/
def reshape {α : Type*} (n w : ℕ) (l : List α) : List (List α) :=
  (List.range n).map fun i => (l.drop (i * w)).take w

@[simp] theorem length_reshape {α : Type*} (n w : ℕ) (l : List α) : (reshape n w l).length = n := by
  rw [reshape, List.length_map, List.length_range]

theorem length_of_mem_reshape {α : Type*} {n w : ℕ} {l row : List α} (hl : l.length = n * w)
    (hrow : row ∈ reshape n w l) :
    row.length = w := by
  obtain ⟨i, hi, rfl⟩ := List.mem_map.1 hrow
  have hle : (i + 1) * w ≤ n * w := Nat.mul_le_mul_right w (List.mem_range.1 hi)
  rw [Nat.succ_mul] at hle
  rw [List.length_take, List.length_drop, hl]
  omega

/-- Rows of one width, put one after another and cut again. -/
theorem reshape_flatMap {α γ : Type*} {w : ℕ} {l : List γ} {f : γ → List α}
    (h : ∀ x ∈ l, (f x).length = w) :
    reshape l.length w (l.flatMap f) = l.map f := by
  induction l with
  | nil => rfl
  | cons x l ih =>
    have hx : (f x).length = w := h x List.mem_cons_self
    have hrest := ih fun y hy => h y (List.mem_cons_of_mem x hy)
    rw [List.map_cons, ← hrest]
    unfold reshape
    rw [List.length_cons, List.range_succ_eq_map, List.map_cons, List.map_map, List.flatMap_cons]
    congr 1
    · simp [← hx]
    · refine List.map_congr_left fun i _ => ?_
      have hdrop : (i + 1) * w = (f x).length + i * w := by rw [hx, Nat.succ_mul, Nat.add_comm]
      rw [Function.comp_apply, Nat.succ_eq_add_one, hdrop, List.drop_length_add_append]

/-- Entry `d * m` of parts of equal length `m` is the first of part `d`. -/
theorem getElem?_flatMap_mul {α γ : Type*} {m : ℕ} {l : List γ} {f : γ → List α}
    (h : ∀ x ∈ l, (f x).length = m) (hm : 0 < m)
    (d : ℕ) : (l.flatMap f)[d * m]? = l[d]?.bind fun x => (f x)[0]? := by
  induction l generalizing d with
  | nil => simp
  | cons x l ih =>
    have hx : (f x).length = m := h x List.mem_cons_self
    rw [List.flatMap_cons]
    cases d with
    | zero =>
      rw [Nat.zero_mul, List.getElem?_append_left (by omega)]
      rfl
    | succ d =>
      rw [List.getElem?_append_right (by rw [hx]; exact Nat.le_mul_of_pos_left m d.succ_pos), hx, Nat.succ_mul,
        Nat.add_sub_cancel, ih fun y hy => h y (List.mem_cons_of_mem x hy), List.getElem?_cons_succ]

/-- The last of `n` copies. -/
theorem getElem?_flatten_replicate {α : Type*} {n : ℕ} (hn : 0 < n) (l : List α) (i : ℕ) :
    (List.replicate n l).flatten[(n - 1) * l.length + i]? = l[i]? := by
  obtain ⟨n, rfl⟩ := Nat.exists_eq_add_of_lt hn
  have hlen : (List.replicate n l).flatten.length = n * l.length := by simp
  rw [Nat.zero_add, List.replicate_succ', List.flatten_append, List.flatten_singleton, Nat.add_sub_cancel,
    List.getElem?_append_right (by omega), hlen, Nat.add_sub_cancel_left]

theorem getElem?_filterMap_range {α : Type*} {f : ℕ → Option α} {n i : ℕ}
    (h : ∀ j < n, (f j).isSome) (hi : i < n) :
    ((List.range n).filterMap f)[i]? = f i := by
  have hlen : ∀ m ≤ n, ((List.range m).filterMap f).length = m := by
    intro m
    induction m with
    | zero => intro _; rfl
    | succ m ih =>
      intro hm
      obtain ⟨x, hx⟩ := Option.isSome_iff_exists.1 (h m hm)
      rw [List.range_succ, List.filterMap_append, List.length_append, ih (by omega)]
      simp [hx]
  induction n with
  | zero => omega
  | succ n ih =>
    rw [List.range_succ, List.filterMap_append]
    rcases Nat.lt_succ_iff_lt_or_eq.1 hi with hlt | rfl
    · rw [List.getElem?_append_left (by rw [hlen n (by omega)]; exact hlt)]
      exact ih (fun j hj => h j (by omega)) hlt fun m hm => hlen m (by omega)
    · obtain ⟨x, hx⟩ := Option.isSome_iff_exists.1 (h i hi)
      rw [List.getElem?_append_right (Nat.le_of_eq (hlen i (by omega))), hlen i (by omega)]
      simp [hx]

/-! ## Entries at indices -/

section mapM

variable {α β : Type*} {f : α → Option β} {l : List α} {ys : List β}

theorem mapM_eq_some_iff : l.mapM f = some ys ↔ l.map f = ys.map some := by
  induction l generalizing ys with
  | nil =>
    rw [List.mapM_nil, List.map_nil, eq_comm (a := [])]
    exact ⟨fun h => by cases h; rfl, fun h => congrArg some (List.map_eq_nil_iff.1 h).symm⟩
  | cons x l ih =>
    rw [List.mapM_cons, List.map_cons]
    cases hx : f x with
    | none => exact ⟨fun h => (by cases h), fun h => (by cases ys <;> cases h)⟩
    | some y =>
      cases hrest : l.mapM f with
      | none =>
        refine ⟨fun h => (by cases h), fun h => ?_⟩
        cases ys with
        | nil => cases h
        | cons y' ys =>
          have htail := ih.2 (List.cons.inj h).2
          rw [hrest] at htail
          cases htail
      | some rest =>
        have hmap := ih.1 hrest
        rw [hmap]
        constructor
        · rintro ⟨⟩
          rfl
        · intro h
          exact congrArg some (List.map_injective_iff.2 (fun _ _ => Option.some.inj) h)

/-- A list is mapped whole when every entry is. -/
theorem mapM_of_isSome (h : ∀ x ∈ l, ∃ y, f x = some y) :
    ∃ ys, l.mapM f = some ys ∧ l.map f = ys.map some := by
  induction l with
  | nil => exact ⟨[], rfl, rfl⟩
  | cons x l ih =>
    obtain ⟨y, hy⟩ := h x List.mem_cons_self
    obtain ⟨ys, hys, hmap⟩ := ih fun x' hx' => h x' (List.mem_cons_of_mem _ hx')
    exact ⟨y :: ys, by rw [List.mapM_cons, hy, hys]; rfl, by rw [List.map_cons, List.map_cons, hy, hmap]⟩

theorem mapM_of_forall {Q : β → Prop} (h : ∀ x ∈ l, ∃ y, f x = some y ∧ Q y) :
    ∃ ys, l.mapM f = some ys ∧ ys.length = l.length ∧ ∀ y ∈ ys, Q y := by
  obtain ⟨ys, hys, hmap⟩ := mapM_of_isSome fun x hx => (h x hx).imp fun _ hy => hy.1
  refine ⟨ys, hys, by simpa using (congrArg List.length hmap).symm, fun y hy => ?_⟩
  obtain ⟨x, hx, hfx⟩ := List.mem_map.1 (hmap ▸ List.mem_map_of_mem hy : some y ∈ l.map f)
  obtain ⟨y', hy', hQ⟩ := h x hx
  rwa [Option.some.inj (hfx.symm.trans hy')]

end mapM

section indexing

variable {α : Type*} {l values : List α} {indices : List ℕ}

/-- The entries of `l` at the indices, if it has them all. -/
def gather (l : List α) (indices : List ℕ) : Option (List α) := indices.mapM (l[·]?)

/-- The values written at the indices, one after another. -/
def scatter (l : List α) (indices : List ℕ) (values : List α) : List α :=
  (indices.zip values).foldl (fun l p => l.set p.1 p.2) l

theorem gather_eq_some_iff : gather l indices = some values ↔ indices.map (l[·]?) = values.map some :=
  mapM_eq_some_iff

theorem gather_of_lt (h : ∀ i ∈ indices, i < l.length) : ∃ values, gather l indices = some values := by
  obtain ⟨values, hvalues, _⟩ := mapM_of_isSome fun i hi => ⟨_, List.getElem?_eq_getElem (h i hi)⟩
  exact ⟨values, hvalues⟩

theorem length_gather (h : gather l indices = some values) : values.length = indices.length := by
  simpa using (congrArg List.length (gather_eq_some_iff.1 h)).symm

theorem getElem?_gather (h : gather l indices = some values) {r i : ℕ}
    (hr : indices[r]? = some i) (hi : i < l.length) :
    values[r]? = l[i]? := by
  have hmap := congrArg (·[r]?) (gather_eq_some_iff.1 h)
  simp only [List.getElem?_map, hr, Option.map_some, List.getElem?_eq_getElem hi] at hmap ⊢
  obtain ⟨v, hv, heq⟩ := Option.map_eq_some_iff.1 hmap.symm
  exact hv.trans heq

theorem length_scatter (l : List α) (indices : List ℕ) (values : List α) :
    (scatter l indices values).length = l.length := by
  unfold scatter
  exact List.foldlRecOn _ _ (motive := fun m : List α => m.length = l.length) rfl
    fun m hm p _ => by rw [List.length_set, hm]

theorem getElem?_scatter_of_notMem {i : ℕ} (hi : i ∉ indices) (l values : List α) :
    (scatter l indices values)[i]? = l[i]? := by
  unfold scatter
  refine List.foldlRecOn _ _ (motive := fun m : List α => m[i]? = l[i]?) rfl fun m hm p hp => ?_
  have hne : p.1 ≠ i := fun heq => hi (heq ▸ (List.of_mem_zip hp).1)
  rw [List.getElem?_set_ne hne, hm]

/-- With distinct indices every value stands where it was written. -/
theorem getElem?_scatter {r i : ℕ} {v : α} (hindices : indices.Nodup) (hr : indices[r]? = some i)
    (hv : values[r]? = some v) (hi : i < l.length) : (scatter l indices values)[i]? = some v := by
  induction indices generalizing l values r with
  | nil => cases hr
  | cons j indices ih =>
    cases values with
    | nil => cases hv
    | cons w values =>
      rw [List.nodup_cons] at hindices
      change (scatter (l.set j w) indices values)[i]? = some v
      cases r with
      | zero =>
        obtain rfl := Option.some.inj hr
        obtain rfl := Option.some.inj hv
        rw [getElem?_scatter_of_notMem hindices.1, List.getElem?_set_self hi]
      | succ r => exact ih hindices.2 hr hv (by rwa [List.length_set])

end indexing

end Updates
