import Mathlib.Data.Nat.Find
import NanoEngine.Server.Detokenize
import NanoEngine.Server.Handed

/-!
# NanoEngine.Server.Stops — where a stop string cuts the text

Every token decodes to a fixed text; there are no markers and no reasoning.  The loop looks for the stop strings in the
text that it has: a stop string is cut where it stands as soon as it is complete.

* `FirstAt`: the place where the whole text is to be cut.
* `Emitting`: a loop that goes on has yielded nothing of a stop string that still may be completed.
* A stop string that begins earlier and is completed later is too late: `streamTextRaw_cut_iff` says when there is none.
-/

namespace NanoEngine.Server

open Markers Kimi Utf8

/-- A stop string stands at `i`, and none before. -/
structure FirstAt (stops : List Text) (text : Text) (i : ℕ) : Prop where
  here : ∃ s ∈ stops, s <+: text.drop i
  before : ∀ j < i, ∀ s ∈ stops, ¬ s <+: text.drop j

/-- The joined texts of the yields. -/
def yielded (ys : List Yield) : Text := ys.flatMap Prod.fst

@[simp] theorem yielded_nil : yielded [] = [] := rfl

@[simp] theorem yielded_append (ys zs : List Yield) :
    yielded (ys ++ zs) = yielded ys ++ yielded zs := List.flatMap_append

@[simp] theorem yielded_singleton (text : Text) (gen : Generation) : yielded [(text, gen)] = text := by
  simp [yielded]

theorem take_append_slice {text : Text} {start stop : ℕ} (h : start ≤ stop) :
    text.take start ++ slice text start stop = text.take stop := by
  have hsplit := List.take_append_drop start (text.take stop)
  rwa [List.take_take, min_eq_left h] at hsplit

/-! ## The earliest stop string -/

section earliest

variable {stops : List Text} {text : Text} {i j : ℕ}

theorem FirstAt.unique (hi : FirstAt stops text i) (hj : FirstAt stops text j) : i = j := by
  obtain ⟨s, hs, his⟩ := hi.here
  obtain ⟨s', hs', hjs⟩ := hj.here
  by_contra hne
  rcases Nat.lt_or_gt_of_ne hne with hlt | hlt
  · exact hj.before i hlt s hs his
  · exact hi.before j hlt s' hs' hjs

/-- Where a stop string stands, the first one does not stand later. -/
theorem exists_firstAt {s : Text} (hs : s ∈ stops) (h : s <+: text.drop i) : ∃ j ≤ i, FirstAt stops text j := by
  classical
  have hex : ∃ i, ∃ s ∈ stops, s <+: text.drop i := ⟨i, s, hs, h⟩
  refine ⟨Nat.find hex, Nat.find_min' hex ⟨s, hs, h⟩, Nat.find_spec hex, fun j hj s' hs' hjs => ?_⟩
  exact Nat.find_min hex hj ⟨s', hs', hjs⟩

theorem FirstAt.lt_length (hstops : ∀ s ∈ stops, s ≠ []) (h : FirstAt stops text i) : i < text.length := by
  obtain ⟨s, hs, his⟩ := h.here
  by_contra hge
  rw [List.drop_eq_nil_of_le (by omega)] at his
  exact hstops s hs (List.prefix_nil.1 his)

/-- More text may bring an earlier one, never a later one. -/
theorem FirstAt.mono {more : Text} (hstops : ∀ s ∈ stops, s ≠ []) (h : FirstAt stops text i)
    (hp : text <+: more) :
    ∃ j ≤ i, FirstAt stops more j := by
  obtain ⟨s, hs, his⟩ := h.here
  obtain ⟨rest, rfl⟩ := hp
  refine exists_firstAt hs (his.trans ?_)
  rw [List.drop_append_of_le_length (h.lt_length hstops).le]
  exact List.prefix_append _ _

theorem earlier_le {best idx : Option ℕ} (h : earlier best idx = some i) :
    (∀ b, best = some b → i ≤ b) ∧ ∀ b, idx = some b → i ≤ b := by
  unfold earlier at h
  split at h
  · subst h
    simp
  · cases h
    simp
  · split at h <;> cases h <;> simp <;> omega

theorem foldl_earlier_le {best : Option ℕ}
    (h : stops.foldl (fun best s => earlier best (find s text)) best = some i) :
    (∀ b, best = some b → i ≤ b) ∧ ∀ s ∈ stops, ∀ b, find s text = some b → i ≤ b := by
  induction stops generalizing best with
  | nil => exact ⟨fun b hb => by cases h.symm.trans hb; exact le_rfl, fun s hs => absurd hs List.not_mem_nil⟩
  | cons s stops ih =>
    obtain ⟨hbest, hrest⟩ := ih h
    cases hround : earlier best (find s text) with
    | none =>
      obtain ⟨hnone, hfind⟩ := earlier_eq_none hround
      refine ⟨fun b hb => ?_, List.forall_mem_cons.2 ⟨fun b hb => ?_, hrest⟩⟩
      · cases hnone.symm.trans hb
      · cases hfind.symm.trans hb
    | some k =>
      obtain ⟨hk, hk'⟩ := earlier_le hround
      have hik := hbest k hround
      exact ⟨fun b hb => hik.trans (hk b hb), List.forall_mem_cons.2 ⟨fun b hb => hik.trans (hk' b hb), hrest⟩⟩

/-- `_earliest_stop` finds the place of the cut. -/
theorem earliestStop_eq_some_iff (hstops : ∀ s ∈ stops, s ≠ []) :
    earliestStop text stops = some i ↔ FirstAt stops text i := by
  have hfirst : ∀ i, earliestStop text stops = some i → FirstAt stops text i := by
    intro i h
    obtain ⟨s, hs, hfind⟩ := earliestStop_eq_some h
    refine ⟨⟨s, hs, prefix_drop_of_find hfind⟩, fun j hj s' hs' => ?_⟩
    cases hfind' : find s' text with
    | none =>
      have hlen := earliestStop_le h
      exact not_prefix_drop_of_find hfind' (by omega)
    | some b =>
      have hle := (foldl_earlier_le h).2 s' hs' b hfind'
      exact not_prefix_drop_of_lt_find hfind' (by omega)
  constructor
  · exact hfirst i
  · intro h
    cases hfound : earliestStop text stops with
    | none =>
      obtain ⟨s, hs, his⟩ := h.here
      exact absurd his (not_prefix_drop_of_find (earliestStop_eq_none hfound s hs) (h.lt_length hstops).le)
    | some j => rw [(hfirst j hfound).unique h]

theorem earliestStop_eq_none_iff (hstops : ∀ s ∈ stops, s ≠ []) :
    earliestStop text stops = none ↔ ∀ i, ¬ FirstAt stops text i := by
  rw [Option.eq_none_iff_forall_ne_some]
  exact forall_congr' fun i => not_congr (earliestStop_eq_some_iff hstops)

/-- A text whose continuation has no stop string has none. -/
theorem earliestStop_eq_none_mono {more : Text} (hstops : ∀ s ∈ stops, s ≠ [])
    (h : earliestStop more stops = none) (hp : text <+: more) : earliestStop text stops = none := by
  rw [earliestStop_eq_none_iff hstops] at h ⊢
  intro i hi
  obtain ⟨j, -, hj⟩ := hi.mono hstops hp
  exact h j hj

end earliest

/-! ## The loop -/

namespace RawState

variable {decode : List ℤ → Text} {maxTokens : ℕ} {stops : List Text} {st : RawState}

/-- A loop that goes on: the text has no stop string, and nothing of one that may still be completed was yielded. -/
structure Emitting (stops : List Text) (st : RawState) : Prop where
  reasoning : st.reasoningActive = false
  holding : st.holdingMarker = false
  free : earliestStop st.text stops = none
  emitted_le : st.emitted ≤ st.text.length
  safe : ∀ v i, st.text <+: v → earliestStop v stops = some i → st.emitted ≤ i

theorem contentRound_of_some (st : RawState) {i : ℕ} (h : earliestStop st.text stops = some i)
    (hle : st.emitted ≤ i) :
    (st.contentRound stops []).2.1 = true ∧
      st.text.take st.emitted ++ yielded (st.contentRound stops []).1 = st.text.take i := by
  unfold contentRound
  simp only [h]
  by_cases hlt : st.emitted < i
  · rw [if_pos hlt]
    exact ⟨rfl, by rw [yielded_singleton, take_append_slice hle]⟩
  · rw [if_neg hlt, show i = st.emitted by omega]
    exact ⟨rfl, List.append_nil _⟩

/-- Without a stop string the round yields up to the place where one may have begun. -/
theorem contentRound_of_none (st : RawState) (h : earliestStop st.text stops = none)
    (hholding : st.holdingMarker = false) :
    (st.contentRound stops []).2.1 = false ∧
      (st.contentRound stops []).2.2 =
        { st with emitted := max st.emitted (st.text.length - partialStopHoldback st.text (stops ++ [])) } ∧
      st.text.take st.emitted ++ yielded (st.contentRound stops []).1 =
        st.text.take (max st.emitted (st.text.length - partialStopHoldback st.text (stops ++ []))) := by
  obtain ⟨gen, text, emitted, holding, active, openers⟩ := st
  obtain rfl : holding = false := hholding
  have hmarkers : earliestStop text [] = none := rfl
  unfold contentRound
  simp only [show earliestStop text stops = none from h, Bool.false_eq_true, if_false, hmarkers]
  generalize text.length - partialStopHoldback text (stops ++ []) = safe
  by_cases hlt : emitted < safe
  · rw [if_pos hlt, max_eq_right hlt.le]
    exact ⟨rfl, rfl, by rw [yielded_singleton, take_append_slice hlt.le]⟩
  · rw [if_neg hlt, max_eq_left (Nat.le_of_not_lt hlt)]
    exact ⟨rfl, rfl, List.append_nil _⟩

/-- A round is that of the new text, if there is any. -/
theorem round_eq (hreasoning : st.reasoningActive = false) (markers : List Text) (ids : List ℤ) :
    st.round decode maxTokens stops markers ids =
      if (detokenizeItem decode maxTokens (st.text, st.gen) ids).1 = st.text then
        ([], false, { st with gen := (detokenizeItem decode maxTokens (st.text, st.gen) ids).2 })
      else ({ st with
        gen := (detokenizeItem decode maxTokens (st.text, st.gen) ids).2
        text := (detokenizeItem decode maxTokens (st.text, st.gen) ids).1 } : RawState).contentRound stops markers := by
  unfold round detokenizeItem
  cases receive maxTokens st.gen ids with
  | none =>
    simp only
    rw [if_pos True.intro]
  | some gen =>
    simp only [List.append_right_eq_self, List.isEmpty_iff]
    by_cases hempty : (incrementalDetokenize decode gen).1 = []
    · rw [if_pos hempty, if_pos hempty]
    · rw [if_neg hempty, if_neg hempty]
      unfold textRound
      rw [if_neg (by simp [hreasoning])]

theorem detokenizeItem_mono (decode : List ℤ → Text) (maxTokens : ℕ) (text : Text)
    (gen : Generation) (ids : List ℤ) :
    text <+: (detokenizeItem decode maxTokens (text, gen) ids).1 := by
  cases hreceive : receive maxTokens gen ids with
  | none => rw [detokenizeItem_of_none (r := (text, gen)) hreceive]
  | some gen' =>
    rw [detokenizeItem_of_some (r := (text, gen)) hreceive]
    exact List.prefix_append _ _

/-- A round of a loop that goes on, when the new text has a stop string. -/
theorem Emitting.round_of_some (h : Emitting stops st) {ids : List ℤ} {i : ℕ}
    (hstop : earliestStop (detokenizeItem decode maxTokens (st.text, st.gen) ids).1 stops = some i) :
    (st.round decode maxTokens stops [] ids).2.1 = true ∧
      st.text.take st.emitted ++ yielded (st.round decode maxTokens stops [] ids).1 =
        (detokenizeItem decode maxTokens (st.text, st.gen) ids).1.take i := by
  have hpre := detokenizeItem_mono decode maxTokens st.text st.gen ids
  rw [round_eq h.reasoning]
  generalize detokenizeItem decode maxTokens (st.text, st.gen) ids = d at hstop hpre
  have hnew : d.1 ≠ st.text := by
    intro heq
    rw [heq, h.free] at hstop
    cases hstop
  rw [if_neg hnew]
  obtain ⟨hstopped, hyield⟩ := contentRound_of_some { st with gen := d.2, text := d.1 } hstop
    (h.safe _ i hpre hstop)
  refine ⟨hstopped, ?_⟩
  obtain ⟨delta, hdelta⟩ := hpre
  rw [← hyield]
  simp only [← hdelta, List.take_append_of_le_length h.emitted_le]

/-- A round that leaves the loop as it goes on. -/
theorem Emitting.round_of_none (h : Emitting stops st) {ids : List ℤ}
    (hstop : earliestStop (detokenizeItem decode maxTokens (st.text, st.gen) ids).1 stops = none) :
    (st.round decode maxTokens stops [] ids).2.1 = false ∧
      Emitting stops (st.round decode maxTokens stops [] ids).2.2 ∧
      ((st.round decode maxTokens stops [] ids).2.2.text, (st.round decode maxTokens stops [] ids).2.2.gen) =
        detokenizeItem decode maxTokens (st.text, st.gen) ids ∧
      st.text.take st.emitted ++ yielded (st.round decode maxTokens stops [] ids).1 =
        (st.round decode maxTokens stops [] ids).2.2.text.take
          (st.round decode maxTokens stops [] ids).2.2.emitted := by
  have hpre := detokenizeItem_mono decode maxTokens st.text st.gen ids
  rw [round_eq h.reasoning]
  generalize detokenizeItem decode maxTokens (st.text, st.gen) ids = d at hstop hpre
  by_cases hsame : d.1 = st.text
  · rw [if_pos hsame]
    exact ⟨rfl, ⟨h.reasoning, h.holding, h.free, h.emitted_le, h.safe⟩,
      Prod.ext hsame.symm rfl, List.append_nil _⟩
  · rw [if_neg hsame]
    obtain ⟨hgoes, hstate, hyield⟩ := contentRound_of_none { st with gen := d.2, text := d.1 } hstop h.holding
    rw [hstate]
    refine ⟨hgoes, ⟨h.reasoning, h.holding, hstop, ?_, ?_⟩, rfl, ?_⟩
    · have hle := h.emitted_le.trans hpre.length_le
      simp only
      omega
    · intro v i hv hi
      have hold := h.safe v i (hpre.trans hv) hi
      have hnew := sub_holdback_le (List.subset_append_left stops []) hv hi hstop
      exact max_le hold hnew
    · obtain ⟨delta, hdelta⟩ := hpre
      rw [← hyield]
      simp only [← hdelta, List.take_append_of_le_length h.emitted_le]

/-- The joined deltas and the generation behind `k` more items. -/
def texts (decode : List ℤ → Text) (maxTokens : ℕ) (st : RawState) (items : List (List ℤ)) (k : ℕ) :
    Text × Generation :=
  (items.take k).foldl (detokenizeItem decode maxTokens) (st.text, st.gen)

/-- The loop ended with the first text that has a stop string. -/
structure Cut (decode : List ℤ → Text) (maxTokens : ℕ) (stops : List Text) (st : RawState)
    (items : List (List ℤ))
    (r : List Yield × Bool × List ℤ × RawState) (k i : ℕ) : Prop where
  stopped : r.2.1 = true
  before : ∀ j < k, earliestStop (st.texts decode maxTokens items j).1 stops = none
  found : earliestStop (st.texts decode maxTokens items k).1 stops = some i
  yields : st.text.take st.emitted ++ yielded r.1 = (st.texts decode maxTokens items k).1.take i

/-- The loop read all items, and no text had a stop string. -/
structure Uncut (decode : List ℤ → Text) (maxTokens : ℕ) (stops : List Text) (st : RawState)
    (items : List (List ℤ)) (r : List Yield × Bool × List ℤ × RawState) : Prop where
  stopped : r.2.1 = false
  before : ∀ k, earliestStop (st.texts decode maxTokens items k).1 stops = none
  emitting : Emitting stops r.2.2.2
  state : (r.2.2.2.text, r.2.2.2.gen) = st.texts decode maxTokens items items.length
  yields : st.text.take st.emitted ++ yielded r.1 = r.2.2.2.text.take r.2.2.2.emitted

theorem Emitting.loop (h : Emitting stops st) (decode : List ℤ → Text) (maxTokens : ℕ) (items : List (List ℤ)) :
    ∃ r, st.loop decode maxTokens stops [] (items.map .tokens) = .ok r ∧
      ((∃ k i, Cut decode maxTokens stops st items r k i) ∨ Uncut decode maxTokens stops st items r) := by
  induction items generalizing st with
  | nil =>
    refine ⟨_, rfl, .inr ⟨rfl, fun k => ?_, h, rfl, List.append_nil _⟩⟩
    rw [texts, List.take_nil]
    exact h.free
  | cons ids items ih =>
    rw [List.map_cons]
    unfold RawState.loop
    cases hstop : earliestStop (detokenizeItem decode maxTokens (st.text, st.gen) ids).1 stops with
    | some i =>
      obtain ⟨hstopped, hyield⟩ := h.round_of_some hstop
      simp only [hstopped, if_true]
      refine ⟨_, rfl, .inl ⟨1, i, rfl, fun j hj => ?_, hstop, hyield⟩⟩
      rw [Nat.lt_one_iff.1 hj]
      exact h.free
    | none =>
      obtain ⟨hgoes, hemitting, hstate, hyield⟩ := h.round_of_none hstop
      obtain ⟨r, hr, hend⟩ := ih hemitting
      simp only [hgoes, Bool.false_eq_true, if_false, hr]
      refine ⟨_, rfl, ?_⟩
      set st' := (st.round decode maxTokens stops [] ids).2.2 with hst'
      -- the items behind the first one
      have htexts : ∀ k, st.texts decode maxTokens (ids :: items) (k + 1) = st'.texts decode maxTokens items k := by
        intro k
        rw [texts, texts, hstate, List.take_succ_cons, List.foldl_cons]
      rcases hend with ⟨k, i, hcut⟩ | huncut
      · refine .inl ⟨k + 1, i, hcut.stopped, fun j hj => ?_, by rw [htexts, hcut.found], ?_⟩
        · cases j with
          | zero => exact h.free
          | succ j =>
            rw [htexts]
            exact hcut.before j (Nat.lt_of_succ_lt_succ hj)
        · rw [htexts, yielded_append, ← List.append_assoc, hyield, hcut.yields]
      · refine .inr ⟨huncut.stopped, fun k => ?_, huncut.emitting, ?_, ?_⟩
        · cases k with
          | zero => exact h.free
          | succ k =>
            rw [htexts]
            exact huncut.before k
        · rw [List.length_cons, htexts]
          exact huncut.state
        · rw [yielded_append, ← List.append_assoc, hyield, huncut.yields]

/-- The end of a loop that was not cut: what was held back is yielded. -/
theorem Emitting.finish (h : Emitting stops st) (maxTokens : ℕ) :
    st.text.take st.emitted ++ yielded (st.finish maxTokens false).1 = st.text ∧
      (st.finish maxTokens false).2.finishReason = if maxTokens ≤ st.gen.tokenIds.length then .length else .stop := by
  obtain ⟨gen, text, emitted, holding, active, openers⟩ := st
  obtain rfl : active = false := h.reasoning
  obtain rfl : holding = false := h.holding
  have hle : emitted ≤ text.length := h.emitted_le
  unfold RawState.finish flush
  by_cases hlt : emitted < text.length
  · simp [hlt]
  · obtain rfl : emitted = text.length := by omega
    simp

theorem finish_stopped (st : RawState) (maxTokens : ℕ) :
    yielded (st.finish maxTokens true).1 = [] ∧ (st.finish maxTokens true).2.finishReason = .stop := by
  unfold RawState.finish
  simp only [if_true, List.nil_append, and_true]
  split <;> simp

end RawState

/-! ## The text that is shown -/

section shown

variable {text : ℤ → Text} {maxTokens : ℕ} {items : List (List ℤ)}

/-- `tokenizer.decode` when every token decodes to its text. -/
def decodeText (text : ℤ → Text) (ids : List ℤ) : Text := ids.flatMap text

/-- The text of the first `k` items. -/
def textAt (text : ℤ → Text) (items : List (List ℤ)) (k : ℕ) : Text := decodeText text (items.take k).flatten

/-- The first `k` items do not end in U+FFFD. -/
def Clean (text : ℤ → Text) (items : List (List ℤ)) (k : ℕ) : Prop :=
  (textAt text items k).getLast? ≠ some replacement

theorem encode_decodeText (ids : List ℤ) : encode (decodeText text ids) = ids.flatMap fun id => encode (text id) :=
  List.flatMap_assoc

theorem decodeBytes_encode : decodeBytes (fun id => encode (text id)) = decodeText text := by
  funext ids
  rw [decodeBytes, ← encode_decodeText, lossy_encode]

theorem textAt_mono {j k : ℕ} (h : j ≤ k) : textAt text items j <+: textAt text items k := by
  obtain ⟨rest, hrest⟩ := List.take_prefix_take_left (l := items) h
  rw [textAt, textAt, ← hrest, List.flatten_append, decodeText, decodeText, List.flatMap_append]
  exact List.prefix_append _ _

theorem textAt_of_le {k : ℕ} (h : items.length ≤ k) : textAt text items k = decodeText text items.flatten := by
  rw [textAt, List.take_of_length_le h]

theorem textAt_prefix_all (k : ℕ) : textAt text items k <+: decodeText text items.flatten := by
  rw [← textAt_of_le (le_max_right k items.length)]
  exact textAt_mono (le_max_left k _)

theorem received_take (hmax : items.flatten.length ≤ maxTokens) (k : ℕ) :
    received maxTokens (items.take k) = (items.take k).flatten := by
  rw [received, List.take_of_length_le]
  have hsplit := congrArg (fun l => l.flatten.length) (List.take_append_drop k items)
  simp only [List.flatten_append, List.length_append] at hsplit
  omega

/-- The joined deltas of the first `n` items. -/
def shown (text : ℤ → Text) (maxTokens : ℕ) (items : List (List ℤ)) (n : ℕ) : Text :=
  (detokenize (decodeText text) maxTokens (items.take n)).1

theorem shown_spec (hmax : items.flatten.length ≤ maxTokens) (n : ℕ) :
    Shown (fun id => encode (text id)) maxTokens (items.take n)
      (detokenize (decodeText text) maxTokens (items.take n)) := by
  have hbytes :
      (received maxTokens (items.take n)).flatMap (fun id => encode (text id)) <+: encode (textAt text items n) := by
    rw [received_take hmax, textAt, encode_decodeText]
  rw [← decodeBytes_encode]
  exact detokenize_shown hbytes

theorem bytesAt_take (hmax : items.flatten.length ≤ maxTokens) (n k : ℕ) :
    bytesAt (fun id => encode (text id)) maxTokens (items.take n) k = encode (textAt text items (min k n)) := by
  rw [bytesAt, List.take_take, received_take hmax, textAt, encode_decodeText]

/-- What is shown is the text of some items that do not end in U+FFFD. -/
theorem shown_reached (text : ℤ → Text) (hmax : items.flatten.length ≤ maxTokens) (n : ℕ) :
    ∃ k ≤ n, shown text maxTokens items n = textAt text items k ∧ Clean text items k := by
  obtain ⟨hlast, k, hk⟩ := (shown_spec hmax n).longest.reached
  rw [bytesAt_take hmax] at hk
  have heq := encode_injective hk
  refine ⟨min k n, min_le_right k n, heq.symm, ?_⟩
  rw [Clean, heq]
  exact hlast

theorem textAt_prefix_shown (hmax : items.flatten.length ≤ maxTokens) {k n : ℕ} (hk : k ≤ n)
    (hclean : Clean text items k) :
    textAt text items k <+: shown text maxTokens items n := by
  refine (shown_spec hmax n).longest.longest _ ⟨hclean, k, ?_⟩
  rw [bytesAt_take hmax, min_eq_left hk]

theorem shown_prefix_all (text : ℤ → Text) (hmax : items.flatten.length ≤ maxTokens) (n : ℕ) :
    shown text maxTokens items n <+: decodeText text items.flatten := by
  obtain ⟨k, -, heq, -⟩ := shown_reached text hmax n
  rw [heq]
  exact textAt_prefix_all k

variable {stops : List Text}

/-- How a stream ends: cut in the first text that has a stop string, or with all that is shown. -/
theorem streamTextRaw_cases (text : ℤ → Text) (hmax : items.flatten.length ≤ maxTokens)
    (hstops : ∀ s ∈ stops, s ≠ []) :
    ∃ s, streamTextRaw (decodeText text) ⟨maxTokens, some stops, none, false⟩ (items.map .tokens) = .ok s ∧
      ((∃ k i, (∀ j < k, earliestStop (shown text maxTokens items j) stops = none) ∧
          earliestStop (shown text maxTokens items k) stops = some i ∧
          yielded s.yields = (shown text maxTokens items k).take i ∧ s.gen.finishReason = .stop) ∨
        (∀ k, earliestStop (shown text maxTokens items k) stops = none) ∧
          yielded s.yields = shown text maxTokens items items.length ∧
          s.gen.finishReason = if maxTokens ≤ items.flatten.length then .length else .stop) := by
  have hempty : earliestStop [] stops = none := by
    rw [earliestStop_eq_none_iff hstops]
    intro i hi
    exact absurd (hi.lt_length hstops) (Nat.not_lt_zero i)
  have hinit : RawState.Emitting stops (RawState.init false) :=
    ⟨rfl, rfl, hempty, le_rfl, fun _ i _ _ => Nat.zero_le i⟩
  obtain ⟨r, hr, hend⟩ := hinit.loop (decodeText text) maxTokens items
  refine ⟨⟨r.1 ++ (r.2.2.2.finish maxTokens r.2.1).1, (r.2.2.2.finish maxTokens r.2.1).2, r.2.2.1⟩, ?_, ?_⟩
  · unfold streamTextRaw
    simp only [Option.getD_some, Option.getD_none, hr]
    rfl
  · rcases hend with ⟨k, i, hcut⟩ | huncut
    · obtain ⟨hnil, hreason⟩ := r.2.2.2.finish_stopped maxTokens
      refine .inl ⟨k, i, hcut.before, hcut.found, ?_, ?_⟩
      · simp only [hcut.stopped, yielded_append, hnil, List.append_nil]
        exact hcut.yields
      · simp only [hcut.stopped, hreason]
    · obtain ⟨hall, hreason⟩ := huncut.emitting.finish maxTokens
      have hstate := huncut.state
      have htext : r.2.2.2.text = shown text maxTokens items items.length := congrArg Prod.fst hstate
      have hgen : r.2.2.2.gen = (detokenize (decodeText text) maxTokens (items.take items.length)).2 :=
        congrArg Prod.snd hstate
      refine .inr ⟨huncut.before, ?_, ?_⟩
      · simp only [huncut.stopped, yielded_append]
        rw [← htext, ← hall]
        congr 1
        exact huncut.yields
      · simp only [huncut.stopped, hreason]
        rw [hgen, (shown_spec hmax items.length).tokenIds, received_take hmax, List.take_length]

/-- The yields are the text up to the first stop string, the reason says so, and nothing of a stop string is yielded. -/
def CutAtFirst (text : ℤ → Text) (maxTokens : ℕ) (stops : List Text) (items : List (List ℤ)) : Prop :=
  ∃ s, streamTextRaw (decodeText text) ⟨maxTokens, some stops, none, false⟩ (items.map .tokens) = .ok s ∧
    (∀ i, FirstAt stops (decodeText text items.flatten) i →
      yielded s.yields = (decodeText text items.flatten).take i ∧ s.gen.finishReason = .stop) ∧
    ((∀ i, ¬ FirstAt stops (decodeText text items.flatten) i) →
      yielded s.yields = decodeText text items.flatten) ∧
    ∀ st ∈ stops, ∀ i, st <+: (decodeText text items.flatten).drop i → (yielded s.yields).length ≤ i

/-- In the texts that are shown, a stop string is never found behind the first one of the whole text. -/
def InTime (text : ℤ → Text) (stops : List Text) (items : List (List ℤ)) : Prop :=
  ∀ k, Clean text items k → earliestStop (textAt text items k) stops = none ∨
    earliestStop (textAt text items k) stops = earliestStop (decodeText text items.flatten) stops

/-- The end of the text is shown, or it was cut before, or the first stop string begins with what is not shown. -/
def EndShown (text : ℤ → Text) (maxTokens : ℕ) (stops : List Text) (items : List (List ℤ)) : Prop :=
  (decodeText text items.flatten).getLast? ≠ some replacement ∨
    (∃ k, Clean text items k ∧ earliestStop (textAt text items k) stops ≠ none) ∨
    items.flatten.length < maxTokens ∧ ∃ k, Clean text items k ∧
      earliestStop (decodeText text items.flatten) stops = some (textAt text items k).length ∧
      ∀ j, Clean text items j → (textAt text items j).length ≤ (textAt text items k).length

theorem cutAtFirst_iff {s : Stream}
    (hs : streamTextRaw (decodeText text) ⟨maxTokens, some stops, none, false⟩ (items.map .tokens) = .ok s) :
    CutAtFirst text maxTokens stops items ↔
      (∀ i, FirstAt stops (decodeText text items.flatten) i →
        yielded s.yields = (decodeText text items.flatten).take i ∧ s.gen.finishReason = .stop) ∧
      ((∀ i, ¬ FirstAt stops (decodeText text items.flatten) i) →
        yielded s.yields = decodeText text items.flatten) := by
  constructor
  · rintro ⟨s', hs', hcut, hall, -⟩
    obtain rfl : s = s' := Except.ok.inj (hs.symm.trans hs')
    exact ⟨hcut, hall⟩
  · rintro ⟨hcut, hall⟩
    refine ⟨s, hs, hcut, hall, fun st hst i hi => ?_⟩
    -- the first stop string stands at `i` or before
    obtain ⟨j, hji, hj⟩ := exists_firstAt hst hi
    rw [(hcut j hj).1, List.length_take]
    omega

/-- The text that was found to have a stop string. -/
theorem inTime_iff_firstAt (hmax : items.flatten.length ≤ maxTokens) (hstops : ∀ s ∈ stops, s ≠ []) {k i : ℕ}
    (hbefore : ∀ j < k, earliestStop (shown text maxTokens items j) stops = none)
    (hfound : earliestStop (shown text maxTokens items k) stops = some i) :
    InTime text stops items ↔ FirstAt stops (decodeText text items.flatten) i := by
  obtain ⟨k', hk', hshown, hclean⟩ := shown_reached text hmax k
  rw [hshown] at hfound
  constructor
  · intro h
    rcases h k' hclean with hnone | hsame
    · cases hnone.symm.trans hfound
    · rw [← earliestStop_eq_some_iff hstops, ← hsame, hfound]
  · intro hfirst c hc
    cases hstop : earliestStop (textAt text items c) stops with
    | none => exact .inl rfl
    | some b =>
      have hb := (earliestStop_eq_some_iff hstops).1 hstop
      rcases Nat.lt_or_ge c k with hlt | hge
      · -- the loop would have found it
        have hnone := earliestStop_eq_none_mono hstops (hbefore c hlt) (textAt_prefix_shown hmax le_rfl hc)
        cases hnone.symm.trans hstop
      · obtain ⟨j, hji, hj⟩ := ((earliestStop_eq_some_iff hstops).1 hfound).mono hstops
          (textAt_mono (hk'.trans hge))
        obtain ⟨l, hlb, hl⟩ := hb.mono hstops (textAt_prefix_all c)
        have hbj := hb.unique hj
        have hli := hl.unique hfirst
        rw [(earliestStop_eq_some_iff hstops).2 hfirst, show b = i by omega]
        exact .inr rfl

theorem textAt_prefix_shown_all (hmax : items.flatten.length ≤ maxTokens) {k : ℕ} (hclean : Clean text items k) :
    textAt text items k <+: shown text maxTokens items items.length := by
  rcases Nat.lt_or_ge items.length k with hlt | hge
  · have hsame : textAt text items k = textAt text items items.length := by
      rw [textAt_of_le hlt.le, textAt_of_le le_rfl]
    rw [Clean, hsame] at hclean
    rw [hsame]
    exact textAt_prefix_shown hmax le_rfl hclean
  · exact textAt_prefix_shown hmax hge hclean

/-- All of the text is shown exactly when it does not end in U+FFFD. -/
theorem shown_eq_iff (hmax : items.flatten.length ≤ maxTokens) :
    shown text maxTokens items items.length = decodeText text items.flatten ↔
      (decodeText text items.flatten).getLast? ≠ some replacement := by
  constructor
  · intro heq
    obtain ⟨k, -, hshown, hclean⟩ := shown_reached text hmax items.length
    rw [← heq, hshown]
    exact hclean
  · intro hlast
    have hclean : Clean text items items.length := by
      rwa [Clean, textAt_of_le le_rfl]
    have hall := textAt_prefix_shown_all hmax hclean
    rw [textAt_of_le le_rfl] at hall
    exact (shown_prefix_all text hmax _).eq_of_length_le hall.length_le

/-- Without a stop string in what is shown, only the end of the text matters. -/
theorem uncut_iff (hmax : items.flatten.length ≤ maxTokens) (hstops : ∀ s ∈ stops, s ≠ [])
    (hfree : ∀ k, earliestStop (shown text maxTokens items k) stops = none) :
    EndShown text maxTokens stops items ↔
      (∀ i, FirstAt stops (decodeText text items.flatten) i →
        shown text maxTokens items items.length = (decodeText text items.flatten).take i ∧
          items.flatten.length < maxTokens) ∧
      ((∀ i, ¬ FirstAt stops (decodeText text items.flatten) i) →
        shown text maxTokens items items.length = decodeText text items.flatten) := by
  obtain ⟨k, -, hshown, hclean⟩ := shown_reached text hmax items.length
  constructor
  · rintro (hlast | ⟨c, hc, hstop⟩ | ⟨hlt, c, hc, hfirst, hlongest⟩)
    · have hall := (shown_eq_iff hmax).2 hlast
      refine ⟨fun i hi => ?_, fun _ => hall⟩
      have hnone := hfree items.length
      rw [hall, earliestStop_eq_none_iff hstops] at hnone
      exact absurd hi (hnone i)
    · exact absurd (earliestStop_eq_none_mono hstops (hfree _) (textAt_prefix_shown_all hmax hc)) hstop
    · rw [earliestStop_eq_some_iff hstops] at hfirst
      refine ⟨fun i hi => ⟨?_, hlt⟩, fun hnone => absurd hfirst (hnone _)⟩
      -- what is shown is the longest text, and that is the one in front of the stop string
      have hsame : textAt text items c = textAt text items k := by
        have hpre := textAt_prefix_shown_all hmax hc
        rw [hshown] at hpre
        exact hpre.eq_of_length_le (hlongest k hclean)
      rw [hi.unique hfirst, hshown, hsame]
      exact List.prefix_iff_eq_take.1 (textAt_prefix_all k)
  · rintro ⟨hcut, hall⟩
    cases hstop : earliestStop (decodeText text items.flatten) stops with
    | none =>
      rw [earliestStop_eq_none_iff hstops] at hstop
      exact .inl ((shown_eq_iff hmax).1 (hall hstop))
    | some i =>
      have hi := (earliestStop_eq_some_iff hstops).1 hstop
      obtain ⟨heq, hlt⟩ := hcut i hi
      rw [hshown] at heq
      have hlength : (textAt text items k).length = i := by
        rw [heq, List.length_take, min_eq_left (hi.lt_length hstops).le]
      refine .inr (.inr ⟨hlt, k, hclean, by rw [hstop, hlength], fun j hj => ?_⟩)
      rw [← hshown]
      exact (textAt_prefix_shown_all hmax hj).length_le

/-- **The stop strings cut where they should exactly when the first one is in time and the end of the text is shown.**
-/
theorem streamTextRaw_cut_iff (hmax : items.flatten.length ≤ maxTokens) (hstops : ∀ s ∈ stops, s ≠ []) :
    CutAtFirst text maxTokens stops items ↔ InTime text stops items ∧ EndShown text maxTokens stops items := by
  obtain ⟨s, hs, ⟨k, i, hbefore, hfound, hyield, hreason⟩ | ⟨hfree, hyield, hreason⟩⟩ :=
    streamTextRaw_cases text hmax hstops
  · -- cut: the place is right when it is the first one of the whole text
    rw [cutAtFirst_iff hs, inTime_iff_firstAt hmax hstops hbefore hfound, hyield]
    obtain ⟨k', -, hshown, hclean⟩ := shown_reached text hmax k
    have hat := (earliestStop_eq_some_iff hstops).1 hfound
    have hle := (hat.lt_length hstops).le
    have htake : (shown text maxTokens items k).take i = (decodeText text items.flatten).take i := by
      obtain ⟨rest, hrest⟩ := shown_prefix_all text hmax k
      rw [← hrest, List.take_append_of_le_length hle]
    obtain ⟨j, hji, hj⟩ := hat.mono hstops (shown_prefix_all text hmax k)
    rw [htake]
    constructor
    · rintro ⟨hcut, -⟩
      have hlength := congrArg List.length (hcut j hj).1
      have hall := (shown_prefix_all text hmax k).length_le
      simp only [List.length_take] at hlength
      obtain rfl : j = i := by omega
      refine ⟨hj, .inr (.inl ⟨k', hclean, ?_⟩)⟩
      rw [← hshown, hfound]
      exact Option.some_ne_none _
    · rintro ⟨hi, -⟩
      refine ⟨fun l hl => ?_, fun hnone => absurd hi (hnone i)⟩
      rw [hl.unique hi]
      exact ⟨rfl, hreason⟩
  · have hintime : InTime text stops items := fun c hc =>
      .inl (earliestStop_eq_none_mono hstops (hfree _) (textAt_prefix_shown_all hmax hc))
    have hstop : s.gen.finishReason = .stop ↔ items.flatten.length < maxTokens := by
      rw [hreason]
      by_cases hfull : maxTokens ≤ items.flatten.length
      · rw [if_pos hfull]
        exact iff_of_false (fun h => by cases h) (Nat.not_lt.2 hfull)
      · rw [if_neg hfull]
        exact ⟨fun _ => Nat.lt_of_not_le hfull, fun _ => rfl⟩
    rw [cutAtFirst_iff hs, uncut_iff hmax hstops hfree, hyield, hstop]
    exact (and_iff_right hintime).symm

end shown

/-! ## Two stop strings that overlap -/

def letters (token : ℤ) : Text := if token = 1 then "ab".toList else if token = 2 then "c".toList else "d".toList

def overlapping : List Text := ["bcd".toList, "c".toList]

theorem streamTextRaw_cut_iff_letters :
    ([[1, 2, 3]] : List (List ℤ)).flatten.length ≤ 8 ∧ (∀ s ∈ overlapping, s ≠ []) ∧
      (CutAtFirst letters 8 overlapping [[1, 2, 3]] ↔
        InTime letters overlapping [[1, 2, 3]] ∧ EndShown letters 8 overlapping [[1, 2, 3]]) :=
  ⟨by decide, by decide, streamTextRaw_cut_iff (by decide) (by decide)⟩

/-- Token by token the shorter stop string is complete first, and what is yielded is the start of the longer one. -/
theorem overlapping_cut_late :
    ¬ ∀ (text : ℤ → Text) (maxTokens : ℕ) (stops : List Text) (items : List (List ℤ)),
    items.flatten.length ≤ maxTokens → (∀ s ∈ stops, s ≠ []) → CutAtFirst text maxTokens stops items := by
  intro hall
  obtain ⟨s, hs, hcut, -⟩ := hall letters 8 overlapping [[1], [2], [3]] (by decide) (by decide)
  have hfirst : FirstAt overlapping (decodeText letters [[1], [2], [3]].flatten) 1 :=
    (earliestStop_eq_some_iff (by decide)).1 (by decide)
  have hyield : ((streamTextRaw (decodeText letters) ⟨8, some overlapping, none, false⟩
      ([[1], [2], [3]].map .tokens)).toOption.map fun s => yielded s.yields) = some "ab".toList := by decide +kernel
  rw [hs] at hyield
  have hab : yielded s.yields = "ab".toList := Option.some.inj hyield
  rw [(hcut 1 hfirst).1] at hab
  exact absurd hab (by decide)

end NanoEngine.Server
