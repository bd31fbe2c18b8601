import NanoEngine.Lib.Law
import Mathlib.Algebra.BigOperators.Field
import Mathlib.Algebra.Order.BigOperators.Group.Finset
import Mathlib.Algebra.Order.Ring.Rat
import Mathlib.Tactic.FieldSimp
import Mathlib.Tactic.Linarith

/-!
# NanoEngine.Mtp.Rejection — the linear draft verified by rejection sampling

`linear_rejection_sample` and `build_output_tokens` of `runtime/runner/mtp_runner.py`, for one row of the batch at a
temperature that samples.  The softmax of a row at its temperature is given as exact weights, and a uniform draw below
`p` is a coin that shows `true` with weight `p`.

* `acceptedCount`: the sum of the cumulative product of the acceptances.
* `linearRejectionSample`: the law of the next token and of the number of accepted drafts.
* `Target`: the distribution of the next token after every context.
* `prob_emitted_extended`: completed from the target, the emitted tokens are tokens of the target.
-/

namespace NanoEngine

/-- `cumprod`. -/
def cumprod : List ℕ → List ℕ
  | [] => []
  | x :: xs => x :: (cumprod xs).map (x * ·)

/-- `accepted = accepts.to(int32).cumprod(dim=1).sum(dim=1)`. -/
def acceptedCount (accepts : List Bool) : ℕ := (cumprod (accepts.map Bool.toNat)).sum

/-- `build_output_tokens`: the accepted drafts, then the sampled token. -/
def outputTokens {α : Type*} (drafts : List α) (accepted : ℕ) (next : α) : List α :=
  drafts.take accepted ++ [next]

/-- What a function of the context gives in a verification: entry `i` follows the first `i` drafts. -/
def verifyRows {α β : Type*} (row : List α → β) (ctx drafts : List α) : List β :=
  (List.range (drafts.length + 1)).map fun i => row (ctx ++ drafts.take i)

@[simp] theorem verifyRows_nil {α β : Type*} (row : List α → β) (ctx : List α) :
    verifyRows row ctx [] = [row ctx] := by
  simp [verifyRows]

@[simp] theorem verifyRows_cons {α β : Type*} (row : List α → β) (ctx : List α) (d : α) (drafts : List α) :
    verifyRows row ctx (d :: drafts) = row ctx :: verifyRows row (ctx ++ [d]) drafts := by
  unfold verifyRows
  rw [List.length_cons, List.range_succ_eq_map]
  simp [Function.comp_def]

@[simp] theorem length_verifyRows {α β : Type*} (row : List α → β) (ctx drafts : List α) :
    (verifyRows row ctx drafts).length = drafts.length + 1 := by
  simp [verifyRows]

@[simp] theorem acceptedCount_nil : acceptedCount [] = 0 := rfl

@[simp] theorem acceptedCount_true (accepts : List Bool) :
    acceptedCount (true :: accepts) = acceptedCount accepts + 1 := by
  simp [acceptedCount, cumprod, Nat.add_comm]

@[simp] theorem acceptedCount_false (accepts : List Bool) : acceptedCount (false :: accepts) = 0 := by
  simp [acceptedCount, cumprod]

theorem acceptedCount_le (accepts : List Bool) : acceptedCount accepts ≤ accepts.length := by
  induction accepts with
  | nil => simp
  | cons c accepts ih =>
    cases c with
    | true => simpa using ih
    | false => simp

variable {V : ℕ}

/-- `accepts`: every draft has a coin of its own, also the ones behind a rejected draft. -/
def acceptCoins : List (Fin V → ℚ) → List (Fin V) → Law ℚ (List Bool)
  | p :: rows, d :: drafts => (Law.coin (p d)).bind fun c => (acceptCoins rows drafts).map (c :: ·)
  | _, _ => Law.pure []

/-- `selected_logits` after `scatter_`: the row behind the accepted drafts, without the draft it rejects. -/
def selectedRow (rows : List (Fin V → ℚ)) (drafts : List (Fin V)) (accepted : ℕ) : Fin V → ℚ :=
  let row := rows.getD accepted 0
  match drafts[min accepted (drafts.length - 1)]? with
  | some rejected => Function.update row rejected (if accepted = drafts.length then row rejected else 0)
  | none => row

/-- `linear_rejection_sample`: the next token and the number of accepted drafts. -/
def linearRejectionSample (rows : List (Fin V → ℚ)) (drafts : List (Fin V)) : Law ℚ (Fin V × ℕ) :=
  (acceptCoins rows drafts).bind fun accepts =>
    (Law.categorical (selectedRow rows drafts (acceptedCount accepts))).map fun next => (next, acceptedCount accepts)

theorem selectedRow_of_lt {rows : List (Fin V → ℚ)} {drafts : List (Fin V)} {k : ℕ} (hk : k < drafts.length) :
    selectedRow rows drafts k = Function.update (rows.getD k 0) drafts[k] 0 := by
  have hmin : min k (drafts.length - 1) = k := by omega
  unfold selectedRow
  simp only [hmin, List.getElem?_eq_getElem hk, if_neg hk.ne]

theorem selectedRow_length (rows : List (Fin V → ℚ)) (drafts : List (Fin V)) :
    selectedRow rows drafts drafts.length = rows.getD drafts.length 0 := by
  unfold selectedRow
  cases h : drafts[min drafts.length (drafts.length - 1)]? with
  | none => rfl
  | some rejected => simp

/-- After an accepted draft the sampler goes on with the rest of the line. -/
theorem selectedRow_succ (p : Fin V → ℚ) (rows : List (Fin V → ℚ)) (d : Fin V) {drafts : List (Fin V)} {k : ℕ}
    (hk : k ≤ drafts.length) : selectedRow (p :: rows) (d :: drafts) (k + 1) = selectedRow rows drafts k := by
  rcases hk.lt_or_eq with hlt | rfl
  · rw [selectedRow_of_lt hlt, selectedRow_of_lt (by simpa using hlt)]
    simp
  · rw [selectedRow_length, ← List.length_cons (a := d), selectedRow_length]
    simp

theorem selectedRow_zero (p : Fin V → ℚ) (rows : List (Fin V → ℚ)) (d : Fin V) (drafts : List (Fin V)) :
    selectedRow (p :: rows) (d :: drafts) 0 = Function.update p d 0 := by
  rw [selectedRow_of_lt (by simp)]
  simp

/-- The coins have total weight one. -/
theorem expect_acceptCoins_const (rows : List (Fin V → ℚ)) (drafts : List (Fin V)) (c : ℚ) :
    (acceptCoins rows drafts).expect (fun _ => c) = c := by
  fun_induction acceptCoins rows drafts with
  | case1 p rows d drafts ih =>
    simp only [Law.expect_bind, Law.expect_map, Law.expect_coin, ih]
    ring
  | case2 => simp

/-- One coin for each draft that has a row. -/
theorem expect_acceptCoins_congr {rows : List (Fin V → ℚ)} {drafts : List (Fin V)} {f g : List Bool → ℚ}
    (h : ∀ accepts : List Bool, accepts.length ≤ drafts.length → f accepts = g accepts) :
    (acceptCoins rows drafts).expect f = (acceptCoins rows drafts).expect g := by
  fun_induction acceptCoins rows drafts generalizing f g with
  | case1 p rows d drafts ih =>
    simp only [Law.expect_bind, Law.expect_map, Law.expect_coin]
    rw [ih fun accepts hlen => h (true :: accepts) (by simpa using hlen),
      ih fun accepts hlen => h (false :: accepts) (by simpa using hlen)]
  | case2 => simpa using h [] (by simp)

/-- The first draft is accepted and the rest goes on, or the next token is the recovery of the first row. -/
theorem expect_linearRejectionSample_cons (p : Fin V → ℚ) (rows : List (Fin V → ℚ)) (d : Fin V)
    (drafts : List (Fin V)) (f : Fin V × ℕ → ℚ) :
    (linearRejectionSample (p :: rows) (d :: drafts)).expect f =
      p d * (linearRejectionSample rows drafts).expect (fun x => f (x.1, x.2 + 1)) +
        (1 - p d) * (Law.categorical (Function.update p d 0)).expect fun next => f (next, 0) := by
  unfold linearRejectionSample
  simp only [acceptCoins, Law.expect_bind, Law.expect_map, Law.expect_coin, acceptedCount_true, acceptedCount_false,
    selectedRow_zero, expect_acceptCoins_const]
  congr 2
  refine expect_acceptCoins_congr fun accepts hlen => ?_
  rw [selectedRow_succ p rows d ((acceptedCount_le accepts).trans hlen)]

theorem expect_linearRejectionSample_nil (p : Fin V → ℚ) (rows : List (Fin V → ℚ)) (f : Fin V × ℕ → ℚ) :
    (linearRejectionSample (p :: rows) []).expect f = (Law.categorical p).expect fun next => f (next, 0) := by
  simp [linearRejectionSample, acceptCoins, selectedRow]

/-- The target model: the distribution of the next token after a context. -/
structure Target (V : ℕ) where
  row : List (Fin V) → Fin V → ℚ
  nonneg : ∀ ctx t, 0 ≤ row ctx t
  total : ∀ ctx, ∑ t, row ctx t = 1

namespace Target

/-- Tokens sampled one at a time. -/
def generate (target : Target V) (ctx : List (Fin V)) : ℕ → Law ℚ (List (Fin V))
  | 0 => Law.pure []
  | n + 1 => (Law.categorical (target.row ctx)).bind fun t => (target.generate (ctx ++ [t]) n).map (t :: ·)

/-- A list of tokens completed to length `n`. -/
def extend (target : Target V) (ctx : List (Fin V)) (n : ℕ) (out : List (Fin V)) : Law ℚ (List (Fin V)) :=
  (target.generate (ctx ++ out) (n - out.length)).map (out ++ ·)

/-- The emitted list of one verification. -/
def emitted (target : Target V) (ctx drafts : List (Fin V)) : Law ℚ (List (Fin V)) :=
  (linearRejectionSample (verifyRows target.row ctx drafts) drafts).map fun x => outputTokens drafts x.2 x.1

variable (target : Target V) (ctx : List (Fin V))

/-- What the row has outside of the rejected draft. -/
theorem sum_update_row (d : Fin V) (f : Fin V → ℚ) :
    ∑ t, Function.update (target.row ctx) d 0 t * f t = (∑ t, target.row ctx t * f t) - target.row ctx d * f d := by
  rw [eq_sub_iff_add_eq, ← Finset.sum_erase_add _ _ (Finset.mem_univ d),
    ← Finset.sum_erase_add (f := fun t => target.row ctx t * f t) _ (Finset.mem_univ d)]
  have herase : ∀ t ∈ Finset.univ.erase d, Function.update (target.row ctx) d 0 t * f t =
    target.row ctx t * f t := by
    intro t ht
    rw [Function.update_of_ne (Finset.ne_of_mem_erase ht)]
  rw [Finset.sum_congr rfl herase]
  simp

/-- A draft of weight one leaves nothing for the other tokens. -/
theorem row_eq_zero {d t : Fin V} (hd : target.row ctx d = 1) (ht : t ≠ d) : target.row ctx t = 0 := by
  have hsum : target.row ctx t + target.row ctx d ≤ 1 := by
    rw [← target.total ctx, ← Finset.sum_pair ht]
    exact Finset.sum_le_sum_of_subset_of_nonneg (Finset.subset_univ _) fun u _ _ => target.nonneg ctx u
  have hnonneg := target.nonneg ctx t
  linarith

/-- Rejection and recovery together draw the tokens other than the draft with their own weights. -/
theorem expect_recovery (d : Fin V) (f : Fin V → ℚ) :
    (1 - target.row ctx d) * (Law.categorical (Function.update (target.row ctx) d 0)).expect f =
      (∑ t, target.row ctx t * f t) - target.row ctx d * f d := by
  have htotal : ∑ t, Function.update (target.row ctx) d 0 t = 1 - target.row ctx d := by
    simpa [target.total] using target.sum_update_row ctx d fun _ => 1
  rw [Law.expect_categorical, htotal, ← target.sum_update_row ctx d f, Finset.mul_sum]
  refine Finset.sum_congr rfl fun t _ => ?_
  by_cases hone : target.row ctx d = 1
  · -- the draft cannot be rejected, and no other token has weight
    by_cases htd : t = d
    · simp [htd]
    · simp [Function.update_of_ne htd, target.row_eq_zero ctx hone htd]
  · have hpos : 1 - target.row ctx d ≠ 0 := sub_ne_zero.2 (Ne.symm hone)
    field_simp

theorem expect_generate_succ (n : ℕ) (f : List (Fin V) → ℚ) :
    (target.generate ctx (n + 1)).expect f =
      ∑ t, target.row ctx t * (target.generate (ctx ++ [t]) n).expect fun rest => f (t :: rest) := by
  simp [generate, target.total]

theorem expect_extend_cons (n : ℕ) (t : Fin V) (out : List (Fin V)) (f : List (Fin V) → ℚ) :
    (target.extend ctx (n + 1) (t :: out)).expect f =
      (target.extend (ctx ++ [t]) n out).expect fun rest => f (t :: rest) := by
  simp [extend]

theorem expect_extend_nil (n : ℕ) (f : List (Fin V) → ℚ) :
    (target.extend ctx n []).expect f = (target.generate ctx n).expect f := by
  simp [extend]

theorem expect_emitted_nil (f : List (Fin V) → ℚ) :
    (target.emitted ctx []).expect f = ∑ t, target.row ctx t * f [t] := by
  simp [emitted, expect_linearRejectionSample_nil, outputTokens, target.total]

/-- The first draft goes out with its own weight and the line goes on behind it; every other token goes out alone,
also with its own weight. -/
theorem expect_emitted_cons (d : Fin V) (drafts : List (Fin V)) (f : List (Fin V) → ℚ) :
    (target.emitted ctx (d :: drafts)).expect f =
      target.row ctx d * (target.emitted (ctx ++ [d]) drafts).expect (fun out => f (d :: out)) +
        ((∑ t, target.row ctx t * f [t]) - target.row ctx d * f [d]) := by
  rw [← expect_recovery]
  simp [emitted, expect_linearRejectionSample_cons, outputTokens]

/-- Every observable has the same weighted sum over the completed emission and over the target's own tokens. -/
theorem expect_emitted_extended (drafts : List (Fin V)) (f : List (Fin V) → ℚ) :
    ((target.emitted ctx drafts).bind (target.extend ctx (drafts.length + 1))).expect f =
      (target.generate ctx (drafts.length + 1)).expect f := by
  induction drafts generalizing ctx f with
  | nil =>
    rw [Law.expect_bind, expect_emitted_nil, List.length_nil, expect_generate_succ]
    simp only [expect_extend_cons, expect_extend_nil]
  | cons d drafts ih =>
    -- behind the accepted draft the induction hypothesis applies to the context with the draft
    have haccept := ih (ctx ++ [d]) fun rest => f (d :: rest)
    rw [Law.expect_bind] at haccept
    rw [Law.expect_bind, expect_emitted_cons, List.length_cons, expect_generate_succ]
    simp only [expect_extend_cons, expect_extend_nil]
    rw [haccept]
    ring

/-- The emitted tokens, completed by sampling from the target, are distributed as tokens of the target. -/
theorem prob_emitted_extended (drafts out : List (Fin V)) :
    ((target.emitted ctx drafts).bind (target.extend ctx (drafts.length + 1))).prob out =
      (target.generate ctx (drafts.length + 1)).prob out :=
  target.expect_emitted_extended ctx drafts _

/-- A target over three tokens; it does not repeat token 0. -/
def noRepeat : Target 3 where
  row ctx t :=
    if ctx.getLast? = some 0 then (if t = 0 then 0 else if t = 1 then 1 / 3 else 2 / 3)
    else if t = 0 then 1 / 2 else 1 / 4
  nonneg ctx t := by split_ifs <;> norm_num
  total ctx := by
    by_cases hlast : ctx.getLast? = some 0
    · simp only [if_pos hlast]
      decide +kernel
    · simp only [if_neg hlast]
      decide +kernel

/-- The first draft is accepted in half of the verifications, and the second one in none. -/
theorem prob_emitted_extended_noRepeat :
    ((noRepeat.emitted [] [0, 0]).bind (noRepeat.extend [] 3)).prob [0, 2, 1] =
        (noRepeat.generate [] 3).prob [0, 2, 1] ∧
      (noRepeat.generate [] 3).prob [0, 2, 1] = 1 / 12 ∧ (noRepeat.emitted [] [0, 0]).prob [0, 2] = 1 / 3 :=
  ⟨noRepeat.prob_emitted_extended [] [0, 0] [0, 2, 1], by decide +kernel, by decide +kernel⟩

end Target

end NanoEngine
