import NanoEngine.Mtp.Rejection
import Mathlib.Data.List.Basic
import Mathlib.Order.BoundedOrder.Basic

/-!
# NanoEngine.Mtp.Greedy — the linear draft verified at temperature zero

`linear_greedy_verify` and the greedy rows of `linear_rejection_sample` of `runtime/runner/mtp_runner.py`.  Logits are
values of a linear order, `⊥` is the value of a masked token.

* `argmax`: the first maximum.
* `linearRejectionGreedy_eq`: with logprobs requested the other function is called; it returns the same.
* `outputTokens_linearGreedyVerify`: the accepted drafts and the next token are the greedy tokens of the target.
-/

namespace NanoEngine

variable {S : Type*} [LinearOrder S]

/-- `argmax`: the first index whose entry no other one exceeds. -/
def argmax (row : List S) : ℕ := row.findIdx fun x => row.all fun y => decide (y ≤ x)

/-- The accepted drafts: the target's own choice in the rows before them. -/
def greedyAccepted (logits : List (List S)) (drafts : List ℕ) : ℕ :=
  acceptedCount (List.zipWith (· == ·) ((logits.take drafts.length).map argmax) drafts)

/-- `linear_greedy_verify`: the next token and the number of accepted drafts. -/
def linearGreedyVerify (logits : List (List S)) (drafts : List ℕ) : ℕ × ℕ :=
  ((logits.map argmax).getD (greedyAccepted logits drafts) 0, greedyAccepted logits drafts)

/-- `linear_rejection_sample` at a temperature below `1e-5`: the rejected draft is masked before the argmax. -/
def linearRejectionGreedy [OrderBot S] (logits : List (List S)) (drafts : List ℕ) : ℕ × ℕ :=
  let accepted := greedyAccepted logits drafts
  let selected := logits.getD accepted []
  let rejected := drafts.getD (min accepted (drafts.length - 1)) 0
  (argmax (if accepted = drafts.length then selected else selected.set rejected ⊥), accepted)

/-- Decoding one token at a time: `n` greedy tokens after `ctx`. -/
def greedyTokens (target : List ℕ → List S) (ctx : List ℕ) : ℕ → List ℕ
  | 0 => []
  | n + 1 => argmax (target ctx) :: greedyTokens target (ctx ++ [argmax (target ctx)]) n

theorem argmax_eq_iff {row : List S} {a : ℕ} (ha : a < row.length) :
    argmax row = a ↔ (∀ y ∈ row, y ≤ row[a]) ∧ ∀ j, (hj : j < a) → ∃ y ∈ row, row[j] < y := by
  unfold argmax
  rw [List.findIdx_eq ha]
  simp

theorem argmax_lt {row : List S} (hrow : row ≠ []) : argmax row < row.length := by
  obtain ⟨x, hx, hmax⟩ := row.toFinset.exists_max_image id ⟨row.head hrow, by simp⟩
  refine List.findIdx_lt_length.2 ⟨x, by simpa using hx, ?_⟩
  simpa using hmax

/-- Masking another token does not move the first maximum. -/
theorem argmax_set [OrderBot S] {row : List S} {d : ℕ} (hd : d ≠ argmax row) :
    argmax (row.set d ⊥) = argmax row := by
  rcases eq_or_ne row [] with rfl | hrow
  · rfl
  have ha := argmax_lt hrow
  obtain ⟨hmax, hfirst⟩ := (argmax_eq_iff ha).1 rfl
  have hmem : row[argmax row] ∈ row.set d ⊥ :=
    List.mem_iff_getElem.2 ⟨argmax row, by simpa using ha, List.getElem_set_ne hd _⟩
  refine (argmax_eq_iff (by simpa using ha)).2 ⟨fun y hy => ?_, fun j hj => ⟨_, hmem, ?_⟩⟩
  · rw [List.getElem_set_ne hd]
    rcases List.mem_or_eq_of_mem_set hy with hrow | rfl
    · exact hmax y hrow
    · exact bot_le
  · obtain ⟨y, hy, hlt⟩ := hfirst j hj
    have hja : row[j] < row[argmax row] := hlt.trans_le (hmax y hy)
    rw [List.getElem_set]
    split_ifs
    · exact bot_le.trans_lt hja
    · exact hja

theorem greedyAccepted_cons (row : List S) (logits : List (List S)) (d : ℕ) (drafts : List ℕ) :
    greedyAccepted (row :: logits) (d :: drafts) =
      if argmax row = d then greedyAccepted logits drafts + 1 else 0 := by
  by_cases h : argmax row = d
  · simp [greedyAccepted, h]
  · simp [greedyAccepted, h, beq_false_of_ne h]

@[simp] theorem greedyAccepted_nil (logits : List (List S)) : greedyAccepted logits [] = 0 := by
  simp [greedyAccepted]

theorem greedyAccepted_le (logits : List (List S)) (drafts : List ℕ) :
    greedyAccepted logits drafts ≤ drafts.length := by
  refine (acceptedCount_le _).trans ?_
  simp

/-- The draft behind the accepted ones is not what the target chose. -/
theorem ne_argmax_of_greedyAccepted {logits : List (List S)} {drafts : List ℕ}
    (hlen : logits.length = drafts.length + 1)
    (hlt : greedyAccepted logits drafts < drafts.length) :
    drafts.getD (greedyAccepted logits drafts) 0 ≠ argmax (logits.getD (greedyAccepted logits drafts) []) := by
  induction drafts generalizing logits with
  | nil => simp at hlt
  | cons d drafts ih =>
    obtain ⟨row, logits, rfl⟩ := List.exists_cons_of_length_eq_add_one hlen
    rw [greedyAccepted_cons] at hlt ⊢
    split_ifs at hlt ⊢ with h
    · simpa using ih (by simpa using hlen) (by simpa using hlt)
    · simpa using Ne.symm h

theorem linearRejectionGreedy_eq [OrderBot S] {logits : List (List S)} {drafts : List ℕ}
    (hlen : logits.length = drafts.length + 1) :
    linearRejectionGreedy logits drafts = linearGreedyVerify logits drafts := by
  have hle := greedyAccepted_le logits drafts
  have hnext : (logits.map argmax).getD (greedyAccepted logits drafts) 0 =
      argmax (logits.getD (greedyAccepted logits drafts) []) := by
    have hlt : greedyAccepted logits drafts < logits.length := by omega
    simp [hlt]
  unfold linearRejectionGreedy linearGreedyVerify
  rw [hnext]
  refine Prod.ext ?_ rfl
  dsimp only
  split_ifs with hall
  · rfl
  · have hmin : min (greedyAccepted logits drafts) (drafts.length - 1) = greedyAccepted logits drafts := by omega
    rw [hmin]
    exact argmax_set (ne_argmax_of_greedyAccepted hlen (by omega))

theorem linearGreedyVerify_cons (row : List S) (logits : List (List S)) (d : ℕ) (drafts : List ℕ) :
    linearGreedyVerify (row :: logits) (d :: drafts) =
      if argmax row = d then
        ((linearGreedyVerify logits drafts).1, (linearGreedyVerify logits drafts).2 + 1)
      else (argmax row, 0) := by
  unfold linearGreedyVerify
  rw [greedyAccepted_cons]
  split_ifs <;> simp

@[simp] theorem length_greedyTokens (target : List ℕ → List S) (ctx : List ℕ) (n : ℕ) :
    (greedyTokens target ctx n).length = n := by
  induction n generalizing ctx with
  | zero => rfl
  | succ n ih => simp [greedyTokens, ih]

theorem greedyTokens_add (target : List ℕ → List S) (ctx : List ℕ) (m n : ℕ) :
    greedyTokens target ctx (m + n) =
      greedyTokens target ctx m ++ greedyTokens target (ctx ++ greedyTokens target ctx m) n := by
  induction m generalizing ctx with
  | zero => simp [greedyTokens]
  | succ m ih =>
    rw [Nat.succ_add]
    simp [greedyTokens, ih]

/-- The verified drafts and the next token are what the target decodes greedily, one token at a time. -/
theorem outputTokens_linearGreedyVerify (target : List ℕ → List S) (ctx drafts : List ℕ) :
    outputTokens drafts (linearGreedyVerify (verifyRows target ctx drafts) drafts).2
        (linearGreedyVerify (verifyRows target ctx drafts) drafts).1 =
      greedyTokens target ctx ((linearGreedyVerify (verifyRows target ctx drafts) drafts).2 + 1) := by
  induction drafts generalizing ctx with
  | nil => simp [linearGreedyVerify, outputTokens, greedyTokens]
  | cons d drafts ih =>
    have hrest := ih (ctx ++ [d])
    rw [verifyRows_cons, linearGreedyVerify_cons]
    split_ifs with h
    · rw [greedyTokens, h, ← hrest]
      simp [outputTokens]
    · simp [outputTokens, greedyTokens]

end NanoEngine
