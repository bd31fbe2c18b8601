import Mathlib.Analysis.SpecialFunctions.Log.Basic
import NanoEngine.Mtp.Greedy
import NanoEngine.Worker.Sample

/-!
# NanoEngine.Mtp.Choice — the two verifiers of a linear draft

`linear_rejection_sample`, `linear_greedy_verify` and the choice between them in `lazy_verify_sample` of
`runtime/runner/mtp_runner.py`, for a batch with a temperature for each sequence.  What is computed in floating point
from a temperature (`log_softmax`, the comparison with a coin, the noise added to a logprob) is given as functions.

* `Logits`, `Drafts`: the tensors `[B, N+1, V]` and `[B, N]`.
* `linearRejectionRow`: one row of `linear_rejection_sample`; `linearRejectionRow_ok`: it is that of
  `linear_greedy_verify` where the greedy mask is set.
* `GreedyAgree`: neither logprobs nor the other rows of the batch change a greedy row.
* `greedy_rows_agree_iff`: so it is when no temperature is below the double bound and not below the `float32` one.
-/

namespace NanoEngine.LazyVerify

/-- `logits`, sequence-major `[B, N+1, V]`. -/
structure Logits (S : Type) where
  batch : ℕ
  width : ℕ
  vocab : ℕ
  rows : List (List (List S))
  length_rows : rows.length = batch
  length_row : ∀ row ∈ rows, row.length = width
  length_entry : ∀ row ∈ rows, ∀ entry ∈ row, entry.length = vocab
  vocab_pos : 0 < vocab

/-- `drafts`, `[B, N]`. -/
structure Drafts where
  batch : ℕ
  numDrafts : ℕ
  rows : List (List ℕ)
  length_rows : rows.length = batch
  length_row : ∀ row ∈ rows, row.length = numDrafts

/-- The floating-point functions: `log_softmax(logits / temperature)`, `coin < exp(logprob)`, and `logprob - log(noise)`
for a draw from the exponential distribution. -/
structure Floats (S F C : Type) where
  logSoftmax : ℚ → List S → List F
  coinBelow : C → F → Bool
  addNoise : F → C → F
  length_logSoftmax : ∀ t row, (logSoftmax t row).length = row.length

/-- What `linear_rejection_sample` returns for one sequence. -/
structure Sampled (F : Type) where
  nextToken : ℕ
  accepted : ℕ
  nextLogprob : F
  draftLogprobs : List F

/-- `torch.where(greedy, 1, temperatures)`. -/
def safeTemperature (t : ℚ) : ℚ := if greedyMask t then 1 else t

section Rows

variable {S F C : Type} (m : Floats S F C)

/-- `target_logprobs[:, :num_drafts].gather(2, drafts)` for one row. -/
def gatherDrafts (targetLogprobs : List (List F)) (drafts : List ℕ) : Option (List F) :=
  (List.zip (targetLogprobs.take drafts.length) drafts).mapM fun x => x.1[x.2]?

/-- `accepts` of one row: the coins are only looked at where the temperature samples. -/
def accepts [LinearOrder S] (logits : List (List S)) (drafts : List ℕ) (t : ℚ) (draftLogprobs : List F)
    (coins : ℕ → C) : List Bool :=
  let targetArgmax := (logits.take drafts.length).map argmax
  if greedyMask t then List.zipWith (· == ·) targetArgmax drafts
  else draftLogprobs.zipIdx.map fun x => m.coinBelow (coins x.2) x.1

/-- `_sample_rows` for one row. -/
def sampleRow [LinearOrder S] [LinearOrder F] (row : List S) (t : ℚ) (noise : ℕ → C) : ℕ :=
  let logProbs := m.logSoftmax (safeTemperature t) row
  let sampled := argmax (logProbs.zipIdx.map fun x => m.addNoise x.1 (noise x.2))
  if greedyMask t then argmax row else sampled

/-- One row of `linear_rejection_sample`; `none` where a `gather` or an index is out of bounds. -/
def linearRejectionRow [LinearOrder S] [LinearOrder F] [OrderBot S] (logits : List (List S))
    (drafts : List ℕ) (t : ℚ) (coins noise : ℕ → C) : Option (Sampled F) := do
  let targetLogprobs := logits.map (m.logSoftmax (safeTemperature t))
  let draftLogprobs ← gatherDrafts targetLogprobs drafts
  let accepted := acceptedCount (accepts m logits drafts t draftLogprobs coins)
  let selectedLogits ← logits[accepted]?
  let allAccepted := accepted = drafts.length
  let rejectedDraft ← drafts[min accepted (drafts.length - 1)]?
  let kept ← selectedLogits[rejectedDraft]?
  let selectedLogits := selectedLogits.set rejectedDraft (if allAccepted then kept else ⊥)
  let nextToken := sampleRow m selectedLogits t noise
  let nextLogprob ← (targetLogprobs.getD accepted [])[nextToken]?
  return { nextToken, accepted, nextLogprob, draftLogprobs }

variable {m} {logits : List (List S)} {drafts : List ℕ} {vocab : ℕ}

theorem gatherDrafts_ok (hlen : logits.length = drafts.length + 1) (hvocab : ∀ row ∈ logits, row.length = vocab)
    (hdrafts : ∀ d ∈ drafts, d < vocab) (t : ℚ) :
    ∃ draftLogprobs : List F, draftLogprobs.length = drafts.length ∧
      gatherDrafts (logits.map (m.logSoftmax (safeTemperature t))) drafts = some draftLogprobs := by
  let targetLogprobs := logits.map (m.logSoftmax (safeTemperature t))
  have hin : ∀ x ∈ List.zip (targetLogprobs.take drafts.length) drafts, ∃ y, x.1[x.2]? = some y := by
    rintro ⟨row, d⟩ hx
    obtain ⟨hrow, hd⟩ := List.of_mem_zip hx
    obtain ⟨entry, hentry, rfl⟩ := List.mem_map.1 (List.mem_of_mem_take hrow)
    refine ⟨_, List.getElem?_eq_getElem ?_⟩
    rw [m.length_logSoftmax, hvocab entry hentry]
    exact hdrafts d hd
  obtain ⟨ys, hys, hmap⟩ := Updates.mapM_of_isSome hin
  refine ⟨ys, ?_, hys⟩
  have h := congrArg List.length hmap
  simp only [List.length_map, List.length_zip, List.length_take, targetLogprobs] at h
  omega

variable [LinearOrder S]

theorem accepts_greedy {t : ℚ} (ht : greedyMask t = true) (logits : List (List S)) (drafts : List ℕ)
    (draftLogprobs : List F) (coins : ℕ → C) :
    acceptedCount (accepts m logits drafts t draftLogprobs coins) = greedyAccepted logits drafts := by
  unfold accepts greedyAccepted
  rw [if_pos ht]

theorem accepted_le (logits : List (List S)) (t : ℚ) {draftLogprobs : List F} (coins : ℕ → C)
    (hlen : draftLogprobs.length = drafts.length) :
    acceptedCount (accepts m logits drafts t draftLogprobs coins) ≤ drafts.length := by
  refine (acceptedCount_le _).trans ?_
  unfold accepts
  split_ifs
  · simp
  · simp [hlen]

variable [LinearOrder F]

/-- A sampled token is one of the vocabulary. -/
theorem sampleRow_lt {row : List S} (hrow : row ≠ []) (t : ℚ) (noise : ℕ → C) :
    sampleRow m row t noise < row.length := by
  unfold sampleRow
  dsimp only
  split_ifs
  · exact argmax_lt hrow
  · have hlen : ((m.logSoftmax (safeTemperature t) row).zipIdx.map fun x => m.addNoise x.1 (noise x.2)).length =
        row.length := by
      simp [m.length_logSoftmax]
    rw [← hlen]
    refine argmax_lt (List.ne_nil_of_length_pos ?_)
    rw [hlen]
    exact List.length_pos_of_ne_nil hrow

theorem sampleRow_greedy {t : ℚ} (ht : greedyMask t = true) (row : List S) (noise : ℕ → C) :
    sampleRow m row t noise = argmax row := by
  unfold sampleRow
  rw [if_pos ht]

variable [OrderBot S]

/-- A row whose drafts are tokens of the vocabulary is sampled whatever the temperature and the draws, and where the
greedy mask is set like `linear_greedy_verify` does. -/
theorem linearRejectionRow_ok (hlen : logits.length = drafts.length + 1) (hpos : 0 < drafts.length)
    (hvocab : ∀ row ∈ logits, row.length = vocab) (hdrafts : ∀ d ∈ drafts, d < vocab) (t : ℚ)
    (coins noise : ℕ → C) :
    ∃ sampled, linearRejectionRow m logits drafts t coins noise = some sampled ∧
      (∃ draftLogprobs, gatherDrafts (logits.map (m.logSoftmax (safeTemperature t))) drafts = some draftLogprobs ∧
        sampled.accepted = acceptedCount (accepts m logits drafts t draftLogprobs coins)) ∧
      (greedyMask t = true →
        (sampled.nextToken, sampled.accepted) = NanoEngine.linearGreedyVerify logits drafts) := by
  obtain ⟨draftLogprobs, hdl, hgather⟩ := gatherDrafts_ok (m := m) hlen hvocab hdrafts t
  obtain ⟨accepted, hacc⟩ : ∃ k, k = acceptedCount (accepts m logits drafts t draftLogprobs coins) := ⟨_, rfl⟩
  have hle : accepted ≤ drafts.length := hacc ▸ accepted_le logits t coins hdl
  obtain ⟨selected, hselected⟩ : ∃ row, logits[accepted]? = some row :=
    ⟨_, List.getElem?_eq_getElem (by omega)⟩
  have hwidth : selected.length = vocab := hvocab selected (List.mem_of_getElem? hselected)
  obtain ⟨rejected, hrejected⟩ : ∃ d, drafts[min accepted (drafts.length - 1)]? = some d :=
    ⟨_, List.getElem?_eq_getElem (by omega)⟩
  have hlt : rejected < selected.length := hwidth ▸ hdrafts rejected (List.mem_of_getElem? hrejected)
  obtain ⟨masked, hmasked⟩ : ∃ row, row = selected.set rejected
      (if accepted = drafts.length then selected[rejected] else ⊥) := ⟨_, rfl⟩
  have hne : masked ≠ [] := by
    refine List.ne_nil_of_length_pos ?_
    rw [hmasked, List.length_set]
    omega
  have hnext : sampleRow m masked t noise < selected.length := by
    have h := sampleRow_lt (m := m) hne t noise
    rwa [hmasked, List.length_set, ← hmasked] at h
  have hlogprob : ∃ lp, ((logits.map (m.logSoftmax (safeTemperature t))).getD accepted [])[
      sampleRow m masked t noise]? = some lp := by
    refine ⟨_, List.getElem?_eq_getElem ?_⟩
    rw [List.getD_eq_getElem?_getD, List.getElem?_map, hselected, Option.map_some, Option.getD_some,
      m.length_logSoftmax]
    exact hnext
  obtain ⟨lp, hlp⟩ := hlogprob
  refine ⟨⟨sampleRow m masked t noise, accepted, lp, draftLogprobs⟩, ?_,
    ⟨draftLogprobs, hgather, hacc⟩, fun ht => ?_⟩
  · unfold linearRejectionRow
    simp only [hgather, ← hacc, hselected, hrejected, List.getElem?_eq_getElem hlt, ← hmasked, hlp,
      Option.bind_eq_bind, Option.bind_some, Option.pure_def]
  -- at a greedy mask the draws decide nothing, and the masked row is not sampled from
  · rw [← linearRejectionGreedy_eq hlen]
    have hg : greedyAccepted logits drafts = accepted :=
      (accepts_greedy ht logits drafts draftLogprobs coins).symm.trans
      hacc.symm
    have hrow : logits.getD accepted [] = selected := by rw [List.getD_eq_getElem?_getD, hselected, Option.getD_some]
    have hdraft : drafts.getD (min accepted (drafts.length - 1)) 0 = rejected := by
      rw [List.getD_eq_getElem?_getD, hrejected, Option.getD_some]
    simp only [linearRejectionGreedy, hg, hrow, hdraft, sampleRow_greedy ht, hmasked]
    split_ifs
    · rw [List.set_getElem_self]
    · rfl

end Rows

section Batch

variable {S F C : Type}

/-- A batch as `lazy_verify_sample` is called with: drafts of the vocabulary and a temperature for every sequence. -/
structure Fits (logits : Logits S) (drafts : Drafts) (temperatures : List ℚ) : Prop where
  batch : drafts.batch = logits.batch
  width : logits.width = drafts.numDrafts + 1
  drafts_pos : 0 < drafts.numDrafts
  temperatures : temperatures.length = logits.batch
  tokens : ∀ row ∈ drafts.rows, ∀ d ∈ row, d < logits.vocab

variable {logits : Logits S} {drafts : Drafts} {temperatures : List ℚ}

theorem Fits.shape (h : Fits logits drafts temperatures) :
    ¬ (drafts.batch ≠ logits.batch ∨ logits.width ≠ drafts.numDrafts + 1) := by
  rintro (hne | hne)
  · exact hne h.batch
  · exact hne h.width

variable [LinearOrder S]

/-- `linear_greedy_verify`: next token and accepted count. -/
def linearGreedyVerify (logits : Logits S) (drafts : Drafts) : Except String (List (ℕ × ℕ)) :=
  if drafts.batch ≠ logits.batch ∨ logits.width ≠ drafts.numDrafts + 1 then
    .error "linear verify width must equal num_drafts + 1"
  else .ok (List.zipWith NanoEngine.linearGreedyVerify logits.rows drafts.rows)

theorem linearGreedyVerify_ok (h : Fits logits drafts temperatures) :
    linearGreedyVerify logits drafts = .ok (List.zipWith NanoEngine.linearGreedyVerify logits.rows drafts.rows) := by
  unfold linearGreedyVerify
  rw [if_neg h.shape]

variable [OrderBot S] [LinearOrder F] (m : Floats S F C)

/-- `linear_rejection_sample`; `coins` and `noise` are the draws of the generator, for each sequence and position. -/
def linearRejectionSample (logits : Logits S) (drafts : Drafts) (temperatures : List ℚ)
    (coins noise : ℕ → ℕ → C) :
    Except String (List (Sampled F)) :=
  if drafts.batch ≠ logits.batch ∨ logits.width ≠ drafts.numDrafts + 1 then
    .error "linear verify width must equal num_drafts + 1"
  else if temperatures.length ≠ logits.batch then .error "one temperature is required per sequence"
  else
    let rows := (List.zip logits.rows (List.zip drafts.rows temperatures)).zipIdx
    (rows.mapM fun x => linearRejectionRow m x.1.1 x.1.2.1 x.1.2.2 (coins x.2) (noise x.2)).elim
      (.error "index out of bounds") .ok

/-- `lazy_verify_sample` on rank 0, to which the sums over the group add zeros: next token and accepted count, and the
logprobs if they are wanted. -/
def lazyVerifySample (logits : Logits S) (drafts : Drafts) (temperatures : List ℚ) (wantLogprobs : Bool)
    (coins noise : ℕ → ℕ → C) : Except String (List (ℕ × ℕ) × Option (List (F × List F))) :=
  let allGreedy := temperatures.all greedyTemperature
  if allGreedy && !wantLogprobs then (linearGreedyVerify logits drafts).map fun verified => (verified, none)
  else
    (linearRejectionSample m logits drafts temperatures coins noise).map fun sampled =>
      (sampled.map fun x => (x.nextToken, x.accepted),
        if wantLogprobs then some (sampled.map fun x => (x.nextLogprob, x.draftLogprobs)) else none)

variable {m}

theorem linearRejectionRow_of_fits (h : Fits logits drafts temperatures) {row : List (List S)} {ds : List ℕ}
    (hrow : row ∈ logits.rows) (hds : ds ∈ drafts.rows) (t : ℚ) (coins noise : ℕ → C) :
    ∃ sampled, linearRejectionRow m row ds t coins noise = some sampled ∧
      (∃ draftLogprobs, gatherDrafts (row.map (m.logSoftmax (safeTemperature t))) ds = some draftLogprobs ∧
        sampled.accepted = acceptedCount (accepts m row ds t draftLogprobs coins)) ∧
      (greedyMask t = true → (sampled.nextToken, sampled.accepted) = NanoEngine.linearGreedyVerify row ds) := by
  have hn : ds.length = drafts.numDrafts := drafts.length_row ds hds
  refine linearRejectionRow_ok ?_ ?_ (logits.length_entry row hrow) (h.tokens ds hds) t coins noise
  · rw [logits.length_row row hrow, h.width, hn]
  · rw [hn]
    exact h.drafts_pos

/-- The rows of a batch are sampled one by one. -/
theorem linearRejectionSample_ok (h : Fits logits drafts temperatures) (coins noise : ℕ → ℕ → C) :
    ∃ sampled, linearRejectionSample m logits drafts temperatures coins noise = .ok sampled ∧
      sampled.length = logits.batch ∧
      ∀ (b : ℕ) (row : List (List S)) (ds : List ℕ) (t : ℚ), logits.rows[b]? = some row →
        drafts.rows[b]? = some ds →
        temperatures[b]? = some t →
        ∃ x, sampled[b]? = some x ∧ linearRejectionRow m row ds t (coins b) (noise b) = some x := by
  let rows := (List.zip logits.rows (List.zip drafts.rows temperatures)).zipIdx
  have hrow : ∀ x ∈ rows, ∃ sampled,
      linearRejectionRow m x.1.1 x.1.2.1 x.1.2.2 (coins x.2) (noise x.2) = some sampled := by
    rintro ⟨⟨row, ds, t⟩, b⟩ hx
    obtain ⟨hrow, hrest⟩ := List.of_mem_zip (List.fst_mem_of_mem_zipIdx hx)
    exact (linearRejectionRow_of_fits h hrow (List.of_mem_zip hrest).1 t (coins b) (noise b)).imp fun _ hy => hy.1
  obtain ⟨sampled, hok, hmap⟩ := Updates.mapM_of_isSome (l := rows) hrow
  have hlen : sampled.length = rows.length := by simpa using (congrArg List.length hmap).symm
  refine ⟨sampled, ?_, ?_, fun b row ds t hlogits hdrafts ht => ?_⟩
  · unfold linearRejectionSample
    rw [if_neg h.shape, if_neg (not_not.2 h.temperatures)]
    show Option.elim (List.mapM _ rows) _ _ = _
    rw [hok]
    rfl
  · rw [hlen]
    simp [rows, logits.length_rows, drafts.length_rows, h.batch, h.temperatures]
  · have hentry : rows[b]? = some ((row, ds, t), b) := by
      have hzip : (List.zip logits.rows (List.zip drafts.rows temperatures))[b]? = some (row, ds, t) :=
        List.getElem?_zip_eq_some.2 ⟨hlogits, List.getElem?_zip_eq_some.2 ⟨hdrafts, ht⟩⟩
      simp [rows, List.getElem?_zipIdx, hzip]
    have hb := congrArg (·[b]?) hmap
    simp only [List.getElem?_map, hentry, Option.map_some] at hb
    obtain ⟨x, hx, hsome⟩ := Option.map_eq_some_iff.1 hb.symm
    exact ⟨x, hx, hsome.symm⟩

/-- The two verifiers agree on the greedy rows: when all rows are greedy `linear_rejection_sample` returns what
`linear_greedy_verify` does, and whether logprobs are wanted and whichever other rows sample, a greedy row of
`lazy_verify_sample` has the token and the count of `linear_greedy_verify`. -/
def GreedyAgree (m : Floats S F C) (logits : Logits S) (drafts : Drafts) (temperatures : List ℚ)
    (coins noise : ℕ → ℕ → C) : Prop :=
  ∃ verified, linearGreedyVerify logits drafts = .ok verified ∧
    ((∀ t ∈ temperatures, greedyTemperature t = true) →
      ∃ sampled, linearRejectionSample m logits drafts temperatures coins noise = .ok sampled ∧
        sampled.map (fun x => (x.nextToken, x.accepted)) = verified) ∧
    ∀ wantLogprobs : Bool, ∃ result,
      lazyVerifySample m logits drafts temperatures wantLogprobs coins noise = .ok result ∧
        ∀ (b : ℕ) (t : ℚ), temperatures[b]? = some t → greedyTemperature t = true →
          result.1[b]? = verified[b]?

/-- Without a borderline temperature the two agree, whatever is drawn. -/
theorem greedyAgree_of_mask (m : Floats S F C) (h : Fits logits drafts temperatures)
    (hmask : ∀ t ∈ temperatures, greedyTemperature t = true → greedyMask t = true)
    (coins noise : ℕ → ℕ → C) :
    GreedyAgree m logits drafts temperatures coins noise := by
  obtain ⟨sampled, hok, hlen, hrows⟩ := linearRejectionSample_ok (m := m) h coins noise
  have hrow : ∀ (b : ℕ) (t : ℚ), temperatures[b]? = some t → greedyTemperature t = true →
      (sampled.map fun x => (x.nextToken, x.accepted))[b]? =
        (List.zipWith NanoEngine.linearGreedyVerify logits.rows drafts.rows)[b]? := by
    intro b t ht hgreedy
    have hb : b < logits.batch := h.temperatures ▸ (List.getElem?_eq_some_iff.1 ht).1
    obtain ⟨row, hlogits⟩ : ∃ row, logits.rows[b]? = some row :=
      ⟨_, List.getElem?_eq_getElem (by rwa [logits.length_rows])⟩
    obtain ⟨ds, hdrafts⟩ : ∃ ds, drafts.rows[b]? = some ds :=
      ⟨_, List.getElem?_eq_getElem (by rwa [drafts.length_rows, h.batch])⟩
    obtain ⟨x, hx, hsome⟩ := hrows b row ds t hlogits hdrafts ht
    obtain ⟨y, hy, -, hagree⟩ := linearRejectionRow_of_fits (m := m) h (List.mem_of_getElem? hlogits)
      (List.mem_of_getElem? hdrafts) t (coins b) (noise b)
    obtain rfl : y = x := Option.some.inj (hy.symm.trans hsome)
    rw [List.getElem?_map, hx, List.getElem?_zipWith, hlogits, hdrafts]
    exact congrArg some (hagree (hmask t (List.mem_of_getElem? ht) hgreedy))
  refine ⟨_, linearGreedyVerify_ok h, fun hall => ⟨sampled, hok, ?_⟩, fun wantLogprobs => ?_⟩
  · refine List.ext_getElem? fun b => ?_
    rcases Nat.lt_or_ge b temperatures.length with hb | hb
    · exact hrow b temperatures[b] (List.getElem?_eq_getElem hb) (hall _ (List.getElem_mem hb))
    · rw [h.temperatures] at hb
      rw [List.getElem?_eq_none (by simpa [hlen] using hb),
        List.getElem?_eq_none (by simp [logits.length_rows, drafts.length_rows, h.batch, hb])]
  · unfold lazyVerifySample
    dsimp only
    by_cases hfast : (temperatures.all greedyTemperature && !wantLogprobs) = true
    · rw [if_pos hfast, linearGreedyVerify_ok h]
      exact ⟨_, rfl, fun b t _ _ => rfl⟩
    · rw [if_neg hfast, hok]
      exact ⟨_, rfl, hrow⟩

end Batch

section Tied

variable {S F C : Type}

/-- `n` rows of one draft, with two tokens of the same logit everywhere. -/
def tiedLogits (a : S) (n : ℕ) : Logits S where
  batch := n
  width := 2
  vocab := 2
  rows := List.replicate n [[a, a], [a, a]]
  length_rows := List.length_replicate
  length_row := fun row hrow => by rw [List.eq_of_mem_replicate hrow]; rfl
  length_entry := fun row hrow => by
    rw [List.eq_of_mem_replicate hrow]
    simp
  vocab_pos := by decide

def firstDrafts (n : ℕ) : Drafts where
  batch := n
  numDrafts := 1
  rows := List.replicate n [0]
  length_rows := List.length_replicate
  length_row := fun row hrow => by rw [List.eq_of_mem_replicate hrow]; rfl

theorem fits_tied (a : S) (temperatures : List ℚ) :
    Fits (tiedLogits a temperatures.length) (firstDrafts temperatures.length) temperatures where
  batch := rfl
  width := rfl
  drafts_pos := Nat.one_pos
  temperatures := rfl
  tokens := fun row hrow d hd => by
    rw [List.eq_of_mem_replicate hrow, List.mem_singleton] at hd
    rw [hd]
    exact Nat.two_pos

variable [LinearOrder S] [OrderBot S] [LinearOrder F] {m : Floats S F C}

omit [OrderBot S] in
/-- `linear_greedy_verify` accepts the first of two equal tokens. -/
theorem linearGreedyVerify_tied (a : S) : (NanoEngine.linearGreedyVerify [[a, a], [a, a]] [0]).2 = 1 := by
  have hargmax : argmax [a, a] = 0 := (argmax_eq_iff (by simp)).2 ⟨by simp, by simp⟩
  simp [NanoEngine.linearGreedyVerify, greedyAccepted, hargmax, acceptedCount, cumprod]

/-- A row at a borderline temperature rejects the first of two equal tokens when the coin says so. -/
theorem not_greedyAgree_tied {a : S} {coin : C} {p : F} {t : ℚ} (hp : (m.logSoftmax t [a, a])[0]? = some p)
    (hcoin : m.coinBelow coin p = false) {temperatures : List ℚ} (ht : t ∈ temperatures)
    (hborder : borderline t = true) (noise : ℕ → ℕ → C) :
    ¬ GreedyAgree m (tiedLogits a temperatures.length) (firstDrafts temperatures.length) temperatures (fun _ _ => coin)
      noise := by
  rintro ⟨verified, hverified, -, hlazy⟩
  rw [borderline, Bool.and_eq_true, Bool.not_eq_true'] at hborder
  have hfits := fits_tied a temperatures
  obtain ⟨b, hb⟩ := List.mem_iff_getElem?.1 ht
  have hlt : b < temperatures.length := (List.getElem?_eq_some_iff.1 hb).1
  have hlogits : (tiedLogits a temperatures.length).rows[b]? = some [[a, a], [a, a]] := by
    simp [tiedLogits, hlt]
  have hdrafts : (firstDrafts temperatures.length).rows[b]? = some [0] := by
    simp [firstDrafts, hlt]
  -- the logprobs are wanted, so that the batch is sampled
  obtain ⟨result, hresult, hrows⟩ := hlazy true
  obtain ⟨sampled, hok, -, hsampled⟩ := linearRejectionSample_ok (m := m) hfits (fun _ _ => coin) noise
  simp only [lazyVerifySample, Bool.not_true, Bool.and_false, Bool.false_eq_true, if_false, hok] at hresult
  obtain rfl := Except.ok.inj hresult
  obtain ⟨x, hx, hrow⟩ := hsampled b _ _ t hlogits hdrafts hb
  obtain ⟨y, hy, ⟨draftLogprobs, hgather, haccepted⟩, -⟩ := linearRejectionRow_of_fits (m := m) hfits
    (List.mem_of_getElem? hlogits) (List.mem_of_getElem? hdrafts) t (fun _ => coin) (noise b)
  obtain rfl : y = x := Option.some.inj (hy.symm.trans hrow)
  -- the coin rejects the draft
  have hdraft : draftLogprobs = [p] := by
    simpa [gatherDrafts, safeTemperature, hborder.2, hp, eq_comm] using hgather
  have hzero : y.accepted = 0 := by
    rw [haccepted, hdraft]
    simp [accepts, hborder.2, hcoin, acceptedCount, cumprod]
  -- and the other verifier accepts it
  obtain rfl := Except.ok.inj ((linearGreedyVerify_ok hfits).symm.trans hverified)
  have heq := hrows b t hb hborder.1
  rw [List.getElem?_map, hx, List.getElem?_zipWith, hlogits, hdrafts] at heq
  have hcount := congrArg Prod.snd (Option.some.inj heq)
  rw [linearGreedyVerify_tied] at hcount
  dsimp only at hcount
  omega

/-- All logits are numbers. -/
def Logits.Finite (logits : Logits S) : Prop := ∀ row ∈ logits.rows, ∀ entry ∈ row, ∀ x ∈ entry, x ≠ ⊥

/-- Of two tokens with the same logit neither is certain: some coin rejects the first. -/
def Floats.Uncertain (m : Floats S F C) : Prop :=
  ∀ t, 0 < t → ∃ (a : S) (p : F) (coin : C), a ≠ ⊥ ∧ (m.logSoftmax t [a, a])[0]? = some p ∧
    m.coinBelow coin p = false

/-- **At which temperatures the two verifiers agree on the greedy rows**, for all logits, drafts and draws: where no
temperature is below the double `1e-5` and not below the `float32` one. -/
theorem greedy_rows_agree_iff (hm : m.Uncertain) (temperatures : List ℚ) :
    (∀ (logits : Logits S) (drafts : Drafts), Fits logits drafts temperatures → logits.Finite →
        ∀ coins noise, GreedyAgree m logits drafts temperatures coins noise) ↔
      ∀ t ∈ temperatures, borderline t = false := by
  constructor
  · intro h t ht
    by_contra hborder
    rw [Bool.not_eq_false] at hborder
    have hpos : 0 < t := by
      rw [borderline, Bool.and_eq_true, Bool.not_eq_true', greedyMask, decide_eq_false_iff_not, not_lt] at hborder
      exact lt_of_lt_of_le (by norm_num) hborder.2
    obtain ⟨a, p, coin, ha, hp, hcoin⟩ := hm t hpos
    refine not_greedyAgree_tied hp hcoin ht hborder (fun _ _ => coin) (h _ _ (fits_tied a temperatures) ?_ _ _)
    intro row hrow entry hentry x hx
    rw [List.eq_of_mem_replicate hrow] at hentry
    simp only [List.mem_cons, List.not_mem_nil, or_false, or_self] at hentry
    rw [hentry] at hx
    simp only [List.mem_cons, List.not_mem_nil, or_false, or_self] at hx
    rwa [hx]
  · intro h logits drafts hfits _ coins noise
    refine greedyAgree_of_mask m hfits (fun t ht hgreedy => ?_) coins noise
    simpa [borderline, hgreedy] using h t ht

end Tied

section Real

/-- The floating-point functions without rounding; `⊥` is the logit of a masked token. -/
noncomputable def exactFloats : Floats (WithBot ℝ) (WithBot ℝ) ℝ where
  logSoftmax t row :=
    let weights := row.map (WithBot.recBotCoe (0 : ℝ) fun x => Real.exp (x / t))
    row.map (WithBot.map fun x => x / t - Real.log weights.sum)
  coinBelow coin logprob := WithBot.recBotCoe false (fun x => decide (coin < Real.exp x)) logprob
  addNoise logprob noise := WithBot.map (fun x => x - Real.log (max noise (1 / 10 ^ 10))) logprob
  length_logSoftmax t row := by simp

/-- Two sequences of one draft each: a tie, and a rejected draft. -/
noncomputable def twoRows : Logits (WithBot ℝ) where
  batch := 2
  width := 2
  vocab := 2
  rows := [[[1, 1], [0, 1]], [[0, 1], [1, 0]]]
  length_rows := rfl
  length_row := by simp
  length_entry := by simp
  vocab_pos := by decide

def twoDrafts : Drafts where
  batch := 2
  numDrafts := 1
  rows := [[0], [0]]
  length_rows := rfl
  length_row := by decide

/-- The coin `3 / 4` rejects a token of probability one half. -/
theorem coinBelow_exactFloats_tied (t : ℚ) :
    ∃ p, (exactFloats.logSoftmax t [(1 : WithBot ℝ), 1])[0]? = some p ∧
      exactFloats.coinBelow (3 / 4) p = false := by
  have hhalf : Real.exp (1 / t - Real.log (Real.exp (1 / t) + Real.exp (1 / t))) = 1 / 2 := by
    rw [Real.exp_sub, Real.exp_log (by positivity)]
    field_simp
    norm_num
  refine ⟨((1 / t - Real.log (Real.exp (1 / t) + Real.exp (1 / t)) : ℝ) : WithBot ℝ), ?_, ?_⟩
  · simp [exactFloats, ← WithBot.coe_one]
  · simp only [exactFloats, WithBot.recBotCoe_coe, hhalf]
    norm_num

theorem uncertain_exactFloats : exactFloats.Uncertain := fun t _ => by
  obtain ⟨p, hp, hcoin⟩ := coinBelow_exactFloats_tied t
  exact ⟨1, p, 3 / 4, by simp, hp, hcoin⟩

/-- The second sequence samples. -/
theorem greedy_rows_agree_two : GreedyAgree exactFloats twoRows twoDrafts [0, 1 / 2] (fun _ _ => 0) (fun _ _ => 1) :=
  (greedy_rows_agree_iff uncertain_exactFloats [0, 1 / 2]).2 (by decide +kernel) _ _
    ⟨rfl, rfl, by decide, rfl, by decide⟩
    (by simp [Logits.Finite, twoRows]) _ _

/-- A request at temperature `1e-5` that wants logprobs: the coin rejects the draft that `linear_greedy_verify` accepts.
-/
theorem not_greedy_rows_agree_tied : greedyTemperature (toFloat32 (1 / 100000)) = true ∧
    ¬ GreedyAgree exactFloats (tiedLogits 1 1) (firstDrafts 1) [toFloat32 (1 / 100000)] (fun _ _ => 3 / 4)
      (fun _ _ => 1) := by
  obtain ⟨p, hp, hcoin⟩ := coinBelow_exactFloats_tied (toFloat32 (1 / 100000))
  refine ⟨by decide +kernel, fun h => ?_⟩
  exact not_greedyAgree_tied hp hcoin (List.mem_singleton_self _) (by decide +kernel) _ h

end Real

end NanoEngine.LazyVerify
