import Mathlib.Data.List.TakeWhile
import NanoEngine.Kimi.Chunks
import NanoEngine.Server.Stream

/-!
# NanoEngine.Server.Handed — the generation a consumer ends with

The consumer learns the generation through a yield.  `silent` says of the decoded texts alone that none of them is
yielded.
-/

namespace NanoEngine.Server

open Markers Kimi

/-! ## Searching -/

theorem earlier_eq_some {best idx : Option ℕ} {i : ℕ} (h : earlier best idx = some i) :
    best = some i ∨ idx = some i := by
  unfold earlier at h
  split at h
  · exact .inl h
  · exact .inr h
  · split at h
    · exact .inr h
    · exact .inl h

theorem earlier_eq_none {best idx : Option ℕ} (h : earlier best idx = none) : best = none ∧ idx = none := by
  unfold earlier at h
  split at h
  · exact ⟨h, rfl⟩
  · cases h
  · split at h <;> cases h

theorem foldl_earlier_eq_some {text : Text} {stops : List Text} {best : Option ℕ} {i : ℕ}
    (h : stops.foldl (fun best s => earlier best (find s text)) best = some i) :
    best = some i ∨ ∃ s ∈ stops, find s text = some i := by
  induction stops generalizing best with
  | nil => exact .inl h
  | cons s stops ih =>
    rcases ih h with heq | ⟨s', hs', hfind⟩
    · exact (earlier_eq_some heq).imp_right fun hfind => ⟨s, List.mem_cons_self, hfind⟩
    · exact .inr ⟨s', List.mem_cons_of_mem _ hs', hfind⟩

theorem foldl_earlier_eq_none {text : Text} {stops : List Text} {best : Option ℕ}
    (h : stops.foldl (fun best s => earlier best (find s text)) best = none) :
    best = none ∧ ∀ s ∈ stops, find s text = none := by
  induction stops generalizing best with
  | nil => exact ⟨h, fun s hs => absurd hs List.not_mem_nil⟩
  | cons s stops ih =>
    obtain ⟨heq, hrest⟩ := ih h
    obtain ⟨hbest, hs⟩ := earlier_eq_none heq
    exact ⟨hbest, List.forall_mem_cons.2 ⟨hs, hrest⟩⟩

theorem earliestStop_eq_some {text : Text} {stops : List Text} {i : ℕ} (h : earliestStop text stops = some i) :
    ∃ s ∈ stops, find s text = some i := by
  rcases foldl_earlier_eq_some h with heq | hfound
  · cases heq
  · exact hfound

theorem earliestStop_eq_none {text : Text} {stops : List Text} (h : earliestStop text stops = none) :
    ∀ s ∈ stops, find s text = none := (foldl_earlier_eq_none h).2

theorem earliestStop_le {text : Text} {stops : List Text} {i : ℕ} (h : earliestStop text stops = some i) :
    i ≤ text.length := by
  obtain ⟨s, -, hfind⟩ := earliestStop_eq_some h
  have hlen := (find_append hfind []).2
  omega

theorem le_foldl_max {α : Type} (g : α → ℕ) {l : List α} {x : α} (hx : x ∈ l) (n : ℕ) :
    g x ≤ l.foldl (fun hold s => max hold (g s)) n := by
  have hge : ∀ (l : List α) (n : ℕ), n ≤ l.foldl (fun hold s => max hold (g s)) n := by
    intro l
    induction l with
    | nil => exact fun n => le_rfl
    | cons s l ih => exact fun n => (Nat.le_max_left n (g s)).trans (ih _)
  induction l generalizing n with
  | nil => cases hx
  | cons s l ih =>
    rcases List.mem_cons.1 hx with rfl | hx
    · exact (Nat.le_max_right n (g x)).trans (hge l _)
    · exact ih hx _

/-- A proper start of a stop string that ends the text is held back. -/
theorem le_partialStopHoldback {text s : Text} {stops : List Text} {k : ℕ} (hs : s ∈ stops) (hk : k < s.length)
    (hsuffix : s.take k <:+ text) : k ≤ partialStopHoldback text stops := by
  have hlen : k ≤ min (s.length - 1) text.length := by
    have := hsuffix.length_le
    rw [List.length_take] at this
    omega
  exact (le_overlapFrom hlen hsuffix).trans
    (le_foldl_max (fun s => overlapFrom text s 0 (min (s.length - 1) text.length)) hs 0)

/-- Before a stop string is complete, everything from its first character on is held back. -/
theorem sub_holdback_le {u v : Text} {ms ms' : List Text} {i : ℕ} (hsub : ms ⊆ ms') (huv : u <+: v)
    (hv : earliestStop v ms = some i) (hu : earliestStop u ms = none) : u.length - partialStopHoldback u ms' ≤ i := by
  obtain ⟨s, hs, hfind⟩ := earliestStop_eq_some hv
  rcases Nat.lt_or_ge u.length i with hlt | hle
  · omega
  have hnot := not_prefix_drop_of_find (earliestStop_eq_none hu s hs) hle
  have hat := prefix_drop_of_find hfind
  obtain ⟨x, rfl⟩ := huv
  rw [List.drop_append_of_le_length hle] at hat
  rcases List.prefix_or_prefix_of_prefix hat (List.prefix_append (u.drop i) x) with hin | ⟨y, hy⟩
  · exact absurd hin hnot
  · have hlen : (u.drop i).length = u.length - i := List.length_drop
    have hne : y ≠ [] := by
      rintro rfl
      rw [List.append_nil] at hy
      exact hnot (hy ▸ List.prefix_rfl)
    have htake : s.take (u.length - i) = u.drop i := by rw [← hy, ← hlen, List.take_left]
    have hk : u.length - i < s.length := by
      have hpos := List.length_pos_iff.2 hne
      rw [← hy, List.length_append, hlen]
      omega
    have hheld := @le_partialStopHoldback u _ _ _ (hsub hs) hk (by rw [htake]; exact List.drop_suffix i u)
    omega

/-! ## The decoded texts -/

/-- The text after every item that added to it. -/
def textsFrom (decode : List ℤ → Text) (maxTokens : ℕ) : List Item → Generation → Text → List Text
  | [], _, _ => []
  | .tokens ids :: items, gen, text =>
    match receive maxTokens gen ids with
    | none => textsFrom decode maxTokens items gen text
    | some gen =>
      let r := incrementalDetokenize decode gen
      if r.1.isEmpty then textsFrom decode maxTokens items r.2 text
      else (text ++ r.1) :: textsFrom decode maxTokens items r.2 (text ++ r.1)
  | _ :: items, gen, text => textsFrom decode maxTokens items gen text

/-- Every text goes on with the one before it. -/
def Grows : List Text → Prop := List.Pairwise (fun t t' => t <+: t' ∧ t.length < t'.length)

theorem Grows.length_le_last {t : Text} {texts : List Text} (h : Grows (t :: texts)) :
    t.length ≤ (texts.getLastD t).length := by
  rw [List.getLastD_eq_getLast?]
  cases hlast : texts.getLast? with
  | none => exact le_rfl
  | some u => exact ((List.pairwise_cons.1 h).1 u (List.mem_of_getLast? hlast)).2.le

theorem textsFrom_grows (decode : List ℤ → Text) (maxTokens : ℕ) (items : List Item)
    (gen : Generation) (text : Text) :
    Grows (text :: textsFrom decode maxTokens items gen text) := by
  induction items generalizing gen text with
  | nil => exact List.pairwise_singleton _ _
  | cons item items ih =>
    cases item with
    | error message => exact ih gen text
    | other => exact ih gen text
    | tokens ids =>
      unfold textsFrom
      cases receive maxTokens gen ids with
      | none => exact ih gen text
      | some gen =>
        dsimp only
        split
        case isTrue => exact ih _ text
        case isFalse hdelta =>
          have hpos : 0 < (incrementalDetokenize decode gen).1.length := List.length_pos_iff.2 (by simpa using hdelta)
          have hrest := ih (incrementalDetokenize decode gen).2 (text ++ (incrementalDetokenize decode gen).1)
          refine List.pairwise_cons.2 ⟨fun t ht => ?_, hrest⟩
          have hfirst : text <+: text ++ (incrementalDetokenize decode gen).1 ∧
              text.length < (text ++ (incrementalDetokenize decode gen).1).length := by
            rw [List.length_append]
            exact ⟨List.prefix_append _ _, by omega⟩
          rcases List.mem_cons.1 ht with rfl | ht
          · exact hfirst
          · have hlater := (List.pairwise_cons.1 hrest).1 t ht
            exact ⟨hfirst.1.trans hlater.1, hfirst.2.trans hlater.2⟩

/-- The fields of the detokenizer agree. -/
structure SameTokens (gen gen' : Generation) : Prop where
  tokenIds : gen.tokenIds = gen'.tokenIds
  prefixOffset : gen.prefixOffset = gen'.prefixOffset
  readOffset : gen.readOffset = gen'.readOffset

theorem SameTokens.detokenize {gen gen' : Generation} (h : SameTokens gen gen') (decode : List ℤ → Text) :
    (incrementalDetokenize decode gen).1 = (incrementalDetokenize decode gen').1 ∧
      SameTokens (incrementalDetokenize decode gen).2 (incrementalDetokenize decode gen').2 := by
  unfold incrementalDetokenize
  dsimp only
  rw [h.tokenIds, h.prefixOffset, h.readOffset]
  split
  · exact ⟨rfl, rfl, rfl, rfl⟩
  · exact ⟨rfl, h⟩

theorem textsFrom_congr (decode : List ℤ → Text) (maxTokens : ℕ) (items : List Item)
    {gen gen' : Generation} (text : Text)
    (h : SameTokens gen gen') : textsFrom decode maxTokens items gen text =
      textsFrom decode maxTokens items gen' text := by
  induction items generalizing gen gen' text with
  | nil => rfl
  | cons item items ih =>
    cases item with
    | error message => exact ih text h
    | other => exact ih text h
    | tokens ids =>
      unfold textsFrom receive
      rw [h.tokenIds]
      by_cases hle : maxTokens ≤ gen'.tokenIds.length
      · rw [if_pos hle, if_pos hle]
        exact ih text h
      · rw [if_neg hle, if_neg hle]
        dsimp only
        let ids' := gen'.tokenIds ++ ids.take (maxTokens - gen'.tokenIds.length)
        have hnext : SameTokens { gen with tokenIds := ids' } { gen' with tokenIds := ids' } :=
          ⟨rfl, h.prefixOffset, h.readOffset⟩
        obtain ⟨hdelta, hsame⟩ := hnext.detokenize decode
        rw [hdelta, ih _ hsame, ih _ hsame]

/-! ## When nothing is yielded -/

section silent

variable (stops markers : List Text)

/-- Where the content begins when nothing was yielded before: behind the openers and the end of an empty reasoning
region. -/
def contentStart (reasoningOpen : Bool) (text : Text) : Option ℕ :=
  if reasoningOpen then
    let pos := (skipRedundantThinkOpeners text 0).1
    if reasoningCloseMarker.isPrefixOf (text.drop pos) then some (pos + reasoningCloseMarker.length) else none
  else some 0

/-- The texts behind `start` stay silent: the first stop string begins at `start` or before and no marker behind `start`
was met until then; or there is none and all content is held by a marker that begins at `start` or before. -/
def silentContent (start : ℕ) (last : Text) (texts : List Text) : Bool :=
  let before := texts.takeWhile (fun t => (earliestStop t stops).isNone)
  let marker := before.findSome? (fun t => earliestStop t markers)
  match texts.find? (fun t => (earliestStop t stops).isSome) with
  | some t =>
    decide ((earliestStop t stops).getD 0 ≤ start) &&
      marker.all (fun m => decide (start ≠ 0) && decide (m ≤ start))
  | none => decide (start ≠ 0) &&
      (decide ((texts.getLastD last).length = start) || marker.any (fun m => decide (m ≤ start)))

/-- The texts lead to no yield. -/
def silent (reasoningOpen : Bool) (last : Text) (texts : List Text) : Bool :=
  match texts.dropWhile (fun t => (contentStart reasoningOpen t).isNone) with
  | [] => decide ((skipRedundantThinkOpeners (texts.getLastD last) 0).1 = (texts.getLastD last).length)
  | t :: rest => silentContent stops markers ((contentStart reasoningOpen t).getD 0) [] (t :: rest)

/-- The rounds of the content, one text after the other. -/
def silentRun (start : ℕ) : Bool → Text → List Text → Bool
  | true, _, [] => decide (start ≠ 0)
  | false, last, [] => decide (last.length ≤ start)
  | holding, _, t :: texts =>
    match earliestStop t stops with
    | some idx => decide (idx ≤ start) && !(holding && decide (start = 0))
    | none =>
      match (if holding then none else earliestStop t markers) with
      | some midx => decide (midx ≤ start) && silentRun start true t texts
      | none =>
        (holding || decide (t.length - partialStopHoldback t (stops ++ markers) ≤ start)) &&
          silentRun start holding t texts

theorem silentRun_cons (start : ℕ) (holding : Bool) (last t : Text) (texts : List Text) :
    silentRun stops markers start holding last (t :: texts) =
      match earliestStop t stops with
      | some idx => decide (idx ≤ start) && !(holding && decide (start = 0))
      | none =>
        match (if holding then none else earliestStop t markers) with
        | some midx => decide (midx ≤ start) && silentRun stops markers start true t texts
        | none =>
          (holding || decide (t.length - partialStopHoldback t (stops ++ markers) ≤ start)) &&
            silentRun stops markers start holding t texts := by
  cases holding <;> rfl

variable {stops markers} {start : ℕ}

/-- While a marker is held, only a stop string behind `start` leads to a yield. -/
theorem silentRun_holding (last : Text) (texts : List Text) : silentRun stops markers start true last texts =
    (decide (start ≠ 0) && (match texts.find? (fun t => (earliestStop t stops).isSome) with
      | some t => decide ((earliestStop t stops).getD 0 ≤ start)
      | none => true)) := by
  induction texts generalizing last with
  | nil => simp [silentRun]
  | cons t texts ih =>
    unfold silentRun
    cases hstop : earliestStop t stops with
    | some idx =>
      rw [List.find?_cons_of_pos (by rw [hstop]; rfl)]
      simp only [hstop, Option.getD_some, Bool.true_and, ne_eq, decide_not]
      rw [Bool.and_comm]
    | none =>
      rw [List.find?_cons_of_neg (by rw [hstop]; decide)]
      simpa using ih t

/-- Texts that stay silent are held back from their first character of content on. -/
theorem held_of_silentContent {t : Text} {texts : List Text} (hgrows : Grows (t :: texts))
    (hstop : earliestStop t stops = none) (hmarker : earliestStop t markers = none)
    (h : silentContent stops markers start t texts = true) :
    t.length - partialStopHoldback t (stops ++ markers) ≤ start := by
  have hlater := (List.pairwise_cons.1 hgrows).1
  unfold silentContent at h
  dsimp only at h
  cases hfind : texts.find? (fun t => (earliestStop t stops).isSome) with
  | some u =>
    rw [hfind] at h
    have hfound : (earliestStop u stops).isSome = true := List.find?_some (p :=
      fun t => (earliestStop t stops).isSome) hfind
    obtain ⟨idx, hidx⟩ := Option.isSome_iff_exists.1 hfound
    rw [Bool.and_eq_true, decide_eq_true_eq] at h
    have hle : idx ≤ start := by
      rw [hidx] at h
      exact h.1
    exact (sub_holdback_le (List.subset_append_left stops markers)
      (hlater u (List.mem_of_find?_eq_some hfind)).1 hidx hstop).trans hle
  | none =>
    rw [hfind] at h
    rw [Bool.and_eq_true, Bool.or_eq_true, decide_eq_true_eq, decide_eq_true_eq] at h
    rcases h.2 with hlen | hany
    · have hle := hgrows.length_le_last
      omega
    · obtain ⟨m, hm, hle⟩ := (Option.any_eq_true _ _).1 hany
      rw [decide_eq_true_eq] at hle
      obtain ⟨u, hu, hmu⟩ := List.exists_of_findSome?_eq_some hm
      have hmem := List.takeWhile_subset _ hu
      exact (sub_holdback_le (List.subset_append_right stops markers) (hlater u hmem).1 hmu hmarker).trans hle

/-- One more text in closed form. -/
theorem silentRun_cons_eq {u : Text} {texts : List Text} (hgrows : Grows (u :: texts)) (hstart : start ≤ u.length)
    (hnext : silentRun stops markers start false u texts = silentContent stops markers start u texts)
    (last last' : Text) :
    silentRun stops markers start false last (u :: texts) = silentContent stops markers start last' (u :: texts) := by
  rw [silentRun_cons]
  cases hstop : earliestStop u stops with
  | some idx =>
    unfold silentContent
    rw [List.takeWhile_cons_of_neg (by simp [hstop]), List.find?_cons_of_pos (by rw [hstop]; rfl)]
    simp [hstop]
  | none =>
    have hbefore : (u :: texts).takeWhile (fun t => (earliestStop t stops).isNone) =
        u :: texts.takeWhile (fun t => (earliestStop t stops).isNone) := List.takeWhile_cons_of_pos (by rw [hstop]; rfl)
    have hfind : (u :: texts).find? (fun t => (earliestStop t stops).isSome) =
        texts.find? (fun t => (earliestStop t stops).isSome) := List.find?_cons_of_neg (by rw [hstop]; decide)
    have hlast : (u :: texts).getLastD last' = texts.getLastD u := List.getLastD_cons ..
    dsimp only
    cases hmarker : earliestStop u markers with
    | none =>
      have heq : silentContent stops markers start last' (u :: texts) = silentContent stops markers start u texts := by
        unfold silentContent
        dsimp only
        rw [hbefore, hfind, hlast, List.findSome?_cons_of_isNone (by rw [hmarker]; rfl)]
      simp only [Bool.false_eq_true, if_false, Bool.false_or]
      rw [hnext, heq]
      cases hsilent : silentContent stops markers start u texts with
      | false => rw [Bool.and_false]
      | true => rw [decide_eq_true (held_of_silentContent hgrows hstop hmarker hsilent), Bool.and_true]
    | some midx =>
      simp only [Bool.false_eq_true, if_false]
      rw [silentRun_holding]
      unfold silentContent
      dsimp only
      rw [hbefore, hfind, hlast, List.findSome?_cons_of_isSome (by rw [hmarker]; rfl)]
      simp only [hmarker, Option.all_some, Option.any_some]
      cases hnone : texts.find? (fun t => (earliestStop t stops).isSome) with
      | some v =>
        dsimp only
        cases decide (midx ≤ start) <;> cases decide (start ≠ 0) <;> simp
      | none =>
        -- a marker stands inside the text
        have hle := earliestStop_le hmarker
        have hge := Grows.length_le_last hgrows
        by_cases hm : midx ≤ start
        · rw [decide_eq_true hm, Bool.true_and, Bool.or_true]
        · have hne : (texts.getLastD u).length ≠ start := by omega
          rw [decide_eq_false hm, decide_eq_false hne, Bool.false_and, Bool.or_false, Bool.and_false]

/-- The rounds in closed form. -/
theorem silentRun_eq {t : Text} {texts : List Text} (hgrows : Grows (t :: texts)) (ht : t ≠ [])
    (hstart : start ≤ t.length) :
    silentRun stops markers start false t texts = silentContent stops markers start t texts := by
  induction texts generalizing t with
  | nil =>
    have hpos := List.length_pos_iff.2 ht
    unfold silentRun silentContent
    rw [Bool.eq_iff_iff]
    simp only [List.takeWhile_nil, List.findSome?_nil, List.find?_nil, List.getLastD_nil,
      Option.any_none, Bool.or_false,
      Bool.and_eq_true, decide_eq_true_iff]
    exact ⟨fun h => ⟨by omega, decide_eq_true (by omega)⟩, fun h => (of_decide_eq_true h.2).le⟩
  | cons u texts ih =>
    obtain ⟨hfirst, hrest⟩ := List.pairwise_cons.1 hgrows
    have hlen := (hfirst u List.mem_cons_self).2
    have hne : u ≠ [] := List.ne_nil_of_length_pos (by omega)
    exact silentRun_cons_eq hrest (by omega) (ih hrest hne (by omega)) t t

end silent

namespace RawState

variable {decode : List ℤ → Text} {maxTokens : ℕ} {stops markers : List Text}

/-- The loop and the end yield nothing. -/
def Quiet (maxTokens : ℕ) (r : List Yield × Bool × List ℤ × RawState) : Prop :=
  r.1 = [] ∧ (r.2.2.2.finish maxTokens r.2.1).1 = []

section rounds

variable {st st' : RawState} {ids : List ℤ} {items : List Item} {ys : List Yield}
  {r : List Yield × Bool × List ℤ × RawState}
  (h : st.loop decode maxTokens stops markers (.tokens ids :: items) = .ok r)
include h

/-- A round that does not stop, then the rest. -/
theorem loop_tokens (hround : st.round decode maxTokens stops markers ids = (ys, false, st')) :
    ∃ rest, st'.loop decode maxTokens stops markers items = .ok rest ∧
      r = (ys ++ rest.1, rest.2.1, ids ++ rest.2.2.1, rest.2.2.2) := by
  unfold loop at h
  dsimp only at h
  rw [hround] at h
  dsimp only at h
  rw [if_neg Bool.false_ne_true] at h
  cases hrest : st'.loop decode maxTokens stops markers items with
  | error message =>
    rw [hrest] at h
    cases h
  | ok rest =>
    rw [hrest] at h
    cases h
    exact ⟨rest, rfl, rfl⟩

/-- A round that stops is the last one. -/
theorem loop_stop (hround : st.round decode maxTokens stops markers ids = (ys, true, st')) :
    r = (ys, true, ids, st') := by
  unfold loop at h
  dsimp only at h
  rw [hround, if_pos rfl] at h
  cases h
  rfl

theorem quiet_tokens (hround : st.round decode maxTokens stops markers ids = (ys, false, st')) :
    ∃ rest, st'.loop decode maxTokens stops markers items = .ok rest ∧
      (Quiet maxTokens r ↔ ys = [] ∧ Quiet maxTokens rest) := by
  obtain ⟨rest, hrest, rfl⟩ := loop_tokens h hround
  refine ⟨rest, hrest, ?_⟩
  unfold Quiet
  rw [List.append_eq_nil_iff, and_assoc]

end rounds

/-- What a round does with an item: nothing, or the round of the new text. -/
theorem round_cases (decode : List ℤ → Text) (maxTokens : ℕ) (stops markers : List Text)
    (st : RawState) (ids : List ℤ) (items : List Item) :
    (∃ gen, st.round decode maxTokens stops markers ids = ([], false, { st with gen := gen }) ∧
      textsFrom decode maxTokens (.tokens ids :: items) st.gen st.text =
        textsFrom decode maxTokens items gen st.text) ∨
    ∃ gen t, st.round decode maxTokens stops markers ids =
      ({ st with gen := gen, text := t } : RawState).textRound stops markers ∧
      textsFrom decode maxTokens (.tokens ids :: items) st.gen st.text =
        t :: textsFrom decode maxTokens items gen t := by
  unfold round
  conv => enter [1, 1, gen, 2, 1]; unfold textsFrom
  conv => enter [2, 1, gen, 1, t, 2, 1]; unfold textsFrom
  cases receive maxTokens st.gen ids with
  | none => exact .inl ⟨st.gen, rfl, rfl⟩
  | some gen =>
    dsimp only
    by_cases hdelta : (incrementalDetokenize decode gen).1.isEmpty = true
    · rw [if_pos hdelta, if_pos hdelta]
      exact .inl ⟨_, rfl, rfl⟩
    · rw [if_neg hdelta, if_neg hdelta]
      exact .inr ⟨_, _, rfl, rfl⟩

/-- A round of the content, without a yield. -/
theorem contentRound_cases (stops markers : List Text) (st : RawState) (last : Text) (texts : List Text) :
    (∃ ys st', st.contentRound stops markers = (ys, true, st') ∧ (ys = [] ∧ (st'.finish maxTokens true).1 = [] ↔
      silentRun stops markers st.emitted st.holdingMarker last (st.text :: texts) = true)) ∨
    ∃ ys st', st.contentRound stops markers = (ys, false, st') ∧
      (silentRun stops markers st.emitted st.holdingMarker last
        (st.text :: texts) = true ↔ ys = [] ∧
          silentRun stops markers st.emitted st'.holdingMarker st.text texts = true) ∧
      (ys = [] → ∃ holding, st' = { st with holdingMarker := holding }) := by
  unfold contentRound
  simp only [silentRun_cons]
  -- a stop ends the round; a marker holds back what follows; else the text goes out up to the holdback
  cases earliestStop st.text stops with
  | some idx =>
    dsimp only
    by_cases hlt : st.emitted < idx
    · rw [if_pos hlt]
      exact .inl ⟨_, _, rfl, by simp [Nat.not_le.2 hlt]⟩
    · rw [if_neg hlt]
      refine .inl ⟨_, _, rfl, ?_⟩
      unfold finish
      cases hhold : st.holdingMarker <;> simp [hhold, Nat.not_lt.1 hlt]
  | none =>
    dsimp only
    cases (if st.holdingMarker then none else earliestStop st.text markers) with
    | some midx =>
      dsimp only
      by_cases hlt : st.emitted < midx
      · rw [if_pos hlt]
        exact .inr ⟨_, _, rfl, by simp [Nat.not_le.2 hlt], fun hnil => absurd hnil (List.cons_ne_nil _ _)⟩
      · rw [if_neg hlt]
        exact .inr ⟨_, _, rfl, by simp [Nat.not_lt.1 hlt], fun _ => ⟨true, rfl⟩⟩
    | none =>
      dsimp only
      cases hhold : st.holdingMarker with
      | true =>
        rw [if_pos rfl]
        exact .inr ⟨_, _, rfl, by simp [hhold], fun _ => ⟨true, by rw [← hhold]⟩⟩
      | false =>
        rw [if_neg (by decide)]
        by_cases hlt : st.emitted < st.text.length - partialStopHoldback st.text (stops ++ markers)
        · rw [if_pos hlt]
          exact .inr
            ⟨_, _, rfl,
              by simp only [decide_eq_false (Nat.not_le.2 hlt)]; simp, fun hnil => absurd hnil (List.cons_ne_nil _ _)⟩
        · rw [if_neg hlt]
          have hle := Nat.not_lt.1 hlt
          refine .inr ⟨_, _, rfl, ?_, fun _ => ⟨false, by rw [← hhold]⟩⟩
          rw [decide_eq_true hle, Bool.or_true, Bool.true_and, hhold]
          exact (and_iff_right rfl).symm

/-- A round of the content and the rounds behind it. -/
theorem contentRound_quiet {st₀ st : RawState} {ids : List ℤ} {items : List Item}
    {r : List Yield × Bool × List ℤ × RawState}
    (h : st₀.loop decode maxTokens stops markers (.tokens ids :: items) = .ok r)
    (hround : st₀.round decode maxTokens stops markers ids = st.contentRound stops markers)
    (hactive : st.reasoningActive = false)
    (hrest : ∀ {st : RawState} {r : List Yield × Bool × List ℤ × RawState}, st.reasoningActive = false →
      st.loop decode maxTokens stops markers items = .ok r → (Quiet maxTokens r ↔
        silentRun stops markers st.emitted st.holdingMarker st.text
          (textsFrom decode maxTokens items st.gen st.text) = true))
    (last : Text) : Quiet maxTokens r ↔ silentRun stops markers st.emitted st.holdingMarker last
      (st.text :: textsFrom decode maxTokens items st.gen st.text) = true := by
  rcases @contentRound_cases maxTokens stops markers st last (textsFrom decode maxTokens items st.gen st.text) with
    ⟨ys, st', heq, hsilent⟩ | ⟨ys, st', heq, hsilent, hframe⟩
  · have hr := loop_stop h (hround.trans heq)
    subst hr
    exact hsilent
  · obtain ⟨rest, hloop, hquiet⟩ := quiet_tokens h (hround.trans heq)
    rw [hquiet]
    refine Iff.trans ?_ hsilent.symm
    refine and_congr_right fun hys => ?_
    obtain ⟨holding, rfl⟩ := hframe hys
    exact @hrest { st with holdingMarker := holding } _ hactive hloop

/-- The rounds of the content yield nothing as `silentRun` says. -/
theorem content_quiet (items : List Item) {st : RawState} (hactive : st.reasoningActive = false)
    {r : List Yield × Bool × List ℤ × RawState} (h : st.loop decode maxTokens stops markers items = .ok r) :
    Quiet maxTokens r ↔
      silentRun stops markers st.emitted st.holdingMarker st.text
        (textsFrom decode maxTokens items st.gen st.text) = true := by
  induction items generalizing st r with
  | nil =>
    cases h
    unfold Quiet finish flush textsFrom
    cases hhold : st.holdingMarker
    · by_cases hlt : st.emitted < st.text.length
      · simp [hactive, hlt, silentRun]
      · simp [hactive, hhold, hlt, Nat.not_lt.1 hlt, silentRun]
    · by_cases hzero : st.emitted = 0 <;> simp [hactive, hhold, hzero, silentRun]
  | cons item items ih =>
    cases item with
    | error message => cases h
    | other => exact ih hactive h
    | tokens ids =>
      rcases round_cases decode maxTokens stops markers st ids items with
        ⟨gen, hround, htexts⟩ | ⟨gen, t, hround, htexts⟩
      · obtain ⟨rest, hrest, hquiet⟩ := quiet_tokens h hround
        rw [htexts, hquiet, @ih { st with gen := gen } hactive _ hrest]
        exact and_iff_right rfl
      · rw [htexts]
        have hcontent : ({ st with gen := gen, text := t } : RawState).textRound stops markers =
            ({ st with gen := gen, text := t } : RawState).contentRound stops markers := by
          unfold textRound
          rw [if_neg (by simp [hactive])]
        exact contentRound_quiet h (hround.trans hcontent) hactive (fun hactive hrest => ih hactive hrest) st.text

end RawState

/-! ## Openers -/

/-- `n` openers, one behind the other. -/
def openers (n : ℕ) : Text := (List.replicate n thinkTag).flatten

theorem openers_succ (n : ℕ) : openers (n + 1) = thinkTag ++ openers n := by
  unfold openers
  rw [List.replicate_succ, List.flatten_cons]

theorem openers_add (m n : ℕ) : openers (m + n) = openers m ++ openers n := by
  unfold openers
  rw [List.replicate_add, List.flatten_append]

theorem length_openers (n : ℕ) : (openers n).length = thinkTag.length * n := by
  induction n with
  | zero => rfl
  | succ n ih => rw [openers_succ, List.length_append, ih, Nat.mul_succ, Nat.add_comm]

/-- Every text is some openers and a rest that begins with none. -/
theorem exists_openers (t : Text) : ∃ n r, t = openers n ++ r ∧ ¬ thinkTag <+: r := by
  induction hlen : t.length using Nat.strong_induction_on generalizing t with
  | _ k ih =>
    by_cases hp : thinkTag <+: t
    · obtain ⟨t', rfl⟩ := hp
      have hlt : t'.length < k := by
        have hpos : 0 < thinkTag.length := by decide
        rw [List.length_append] at hlen
        omega
      obtain ⟨n, r, rfl, hr⟩ := ih _ hlt t' rfl
      exact ⟨n + 1, r, by rw [openers_succ, List.append_assoc], hr⟩
    · exact ⟨0, t, rfl, hp⟩

theorem skipOpeners_openers {n i fuel : ℕ} {r : Text} (hr : ¬ thinkTag <+: r) (hi : i ≤ n)
    (hfuel : n ≤ i + fuel) :
    skipOpeners (openers n ++ r) fuel (thinkTag.length * i) = thinkTag.length * n := by
  induction fuel generalizing i with
  | zero =>
    have heq : i = n := by omega
    rw [heq]
    rfl
  | succ fuel ih =>
    obtain ⟨k, rfl⟩ := Nat.exists_eq_add_of_le hi
    have hdrop : (openers (i + k) ++ r).drop (thinkTag.length * i) = openers k ++ r := by
      rw [openers_add, List.append_assoc, ← length_openers, List.drop_left]
    unfold skipOpeners
    rw [hdrop]
    cases k with
    | zero =>
      rw [if_neg (by rw [List.isPrefixOf_iff_prefix]; exact hr)]
      rfl
    | succ k =>
      rw [if_pos (by rw [List.isPrefixOf_iff_prefix, openers_succ, List.append_assoc]; exact List.prefix_append _ _),
        ← Nat.mul_succ]
      exact ih (by omega) (by omega)

theorem skip_openers {n i : ℕ} {r : Text} (hr : ¬ thinkTag <+: r) (hi : i ≤ n) :
    skipRedundantThinkOpeners (openers n ++ r) (thinkTag.length * i) =
      (thinkTag.length * n, r.isEmpty || r.isPrefixOf thinkTag) := by
  have hfuel : n ≤ i + (openers n ++ r).length := by
    have hpos : 0 < thinkTag.length := by decide
    have := Nat.le_mul_of_pos_left n hpos
    rw [List.length_append, length_openers]
    omega
  unfold skipRedundantThinkOpeners
  rw [skipOpeners_openers hr hi hfuel]
  dsimp only
  rw [← length_openers, List.drop_left]

theorem contentStart_openers {n : ℕ} {r : Text} (hr : ¬ thinkTag <+: r) : contentStart true (openers n ++ r) =
    if reasoningCloseMarker.isPrefixOf r then some (thinkTag.length * n + reasoningCloseMarker.length) else none := by
  have hskip := skip_openers (n := n) (i := 0) hr (Nat.zero_le n)
  rw [Nat.mul_zero] at hskip
  unfold contentStart
  rw [if_pos rfl, hskip]
  dsimp only
  rw [← length_openers, List.drop_left]

/-- What begins unlike both tags goes on like this. -/
theorem not_prefix_append {m r : Text} (h : ¬ m <+: r) (h' : ¬ r <+: m) (x : Text) : ¬ m <+: r ++ x := by
  intro hp
  rcases List.prefix_or_prefix_of_prefix hp (List.prefix_append r x) with hmr | hrm
  · exact h hmr
  · exact h' hrm

/-- The start of the closing tag that ends a text reaches back to the openers at most. -/
theorem holdback_lt {n : ℕ} {r : Text} (hr : ¬ r <+: reasoningCloseMarker) (hne : r ≠ []) :
    partialStopHoldback (openers n ++ r) [reasoningCloseMarker] < r.length := by
  have heq : partialStopHoldback (openers n ++ r) [reasoningCloseMarker] =
    overlapFrom (openers n ++ r) reasoningCloseMarker 0
      (min (reasoningCloseMarker.length - 1) (openers n ++ r).length) := Nat.zero_max _
  rw [heq]
  generalize hk : overlapFrom (openers n ++ r) reasoningCloseMarker 0
    (min (reasoningCloseMarker.length - 1) (openers n ++ r).length) = k
  have hpos := List.length_pos_iff.2 hne
  rcases overlapFrom_cases (openers n ++ r) reasoningCloseMarker 0
    (min (reasoningCloseMarker.length - 1) (openers n ++ r).length) with hzero | ⟨hle, hs⟩
  · omega
  · rw [hk] at hle hs
    by_contra hge
    have hle' : r.length ≤ k := Nat.not_lt.1 hge
    have hlen : k ≤ reasoningCloseMarker.length - 1 := le_trans hle (Nat.min_le_left _ _)
    have hsuffix : r <:+ reasoningCloseMarker.take k := by
      refine List.suffix_of_suffix_length_le (List.suffix_append _ r) hs ?_
      rw [List.length_take]
      have : 0 < reasoningCloseMarker.length := by decide
      omega
    obtain ⟨w, hw⟩ := hsuffix
    by_cases hnil : w = []
    · rw [hnil, List.nil_append] at hw
      exact hr (hw ▸ List.take_prefix _ _)
    · -- the character before `r` ends an opener, and in the closing tag only the last one is like it
      obtain ⟨y, hy⟩ := hs
      rw [← hw, ← List.append_assoc] at hy
      have hopeners := List.append_cancel_right hy
      have hlast : '>' ∈ w := by
        cases n with
        | zero => exact absurd (List.append_eq_nil_iff.1 hopeners).2 hnil
        | succ n =>
          have hend : (y ++ w).getLast? = some '>' := by
            rw [hopeners, openers_add, List.getLast?_append]
            rfl
          rw [List.getLast?_append_of_ne_nil _ hnil] at hend
          exact List.mem_of_getLast? hend
      have hmem : '>' ∈ reasoningCloseMarker.take k := hw ▸ List.mem_append_left r hlast
      have hsub := (List.take_sublist_take_left (l := reasoningCloseMarker) hlen).subset hmem
      exact absurd hsub (by decide)

namespace RawState

variable {decode : List ℤ → Text} {maxTokens : ℕ} {stops markers : List Text}

/-- A round of the reasoning behind `n` openers: the region is empty and closed, the closing tag is not complete, or
there is reasoning. -/
theorem reasoningText_cases {st : RawState} {n : ℕ} {r : Text} (htext : st.text = openers n ++ r)
    (hemitted : st.emitted = thinkTag.length * n) (hne : r ≠ []) :
    (reasoningCloseMarker <+: r ∧ st.reasoningText = ([], true, { st with
      emitted := thinkTag.length * n + reasoningCloseMarker.length
      reasoningActive := false
      gen := { st.gen with inReasoning := false } })) ∨
    (r <+: reasoningCloseMarker ∧ ¬ reasoningCloseMarker <+: r ∧ st.reasoningText = ([], false, st)) ∨
    (¬ r <+: reasoningCloseMarker ∧ ¬ reasoningCloseMarker <+: r ∧ st.reasoningText.1 ≠ []) := by
  have hfind : findFrom reasoningCloseMarker st.text st.emitted =
      (find reasoningCloseMarker r).map (· + thinkTag.length * n) := by
    unfold findFrom
    rw [htext, hemitted, ← length_openers, List.drop_left]
  have hlen : st.text.length = thinkTag.length * n + r.length := by rw [htext, List.length_append, length_openers]
  unfold reasoningText
  rw [hfind]
  -- what is behind the openers is the closing tag, a part of it, or text of the region
  by_cases hclose : reasoningCloseMarker <+: r
  · refine .inl ⟨hclose, ?_⟩
    rw [find_at_start hclose]
    simp [hemitted]
  · cases hat : find reasoningCloseMarker r with
    | some close =>
      have hpos : close ≠ 0 := fun hzero => hclose (by simpa [hzero] using prefix_drop_of_find hat)
      have hlt : st.emitted < close + thinkTag.length * n := by omega
      have hnot : ¬ r <+: reasoningCloseMarker := by
        intro hp
        have hle := (find_append hat []).2
        have := hp.length_le
        omega
      refine .inr (.inr ⟨hnot, hclose, ?_⟩)
      simp [hlt, sendReasoning]
    | none =>
      dsimp only [Option.map_none]
      by_cases hp : r <+: reasoningCloseMarker
      · have hlt : r.length < reasoningCloseMarker.length := by
          by_contra hge
          exact hclose (hp.eq_of_length_le (by omega) ▸ List.prefix_rfl)
        have htake : reasoningCloseMarker.take r.length = r := (List.prefix_iff_eq_take.1 hp).symm
        have hheld := @le_partialStopHoldback st.text _ [reasoningCloseMarker] _ List.mem_cons_self hlt
          (by rw [htake, htext]; exact List.suffix_append _ r)
        refine .inr (.inl ⟨hp, hclose, ?_⟩)
        rw [if_neg (by omega)]
      · have hheld := holdback_lt (n := n) hp hne
        rw [← htext] at hheld
        refine .inr (.inr ⟨hp, hclose, ?_⟩)
        rw [if_pos (by omega)]
        exact List.cons_ne_nil _ _

/-- The reasoning is open and nothing of it was yielded: the text is `n` openers and the start of a tag. -/
structure Undecided (st : RawState) (n : ℕ) (r : Text) : Prop where
  text : st.text = openers n ++ r
  emitted : st.emitted = thinkTag.length * n
  active : st.reasoningActive = true
  holding : st.holdingMarker = false
  rest : ¬ thinkTag <+: r
  tag : st.dropRedundantThinkOpeners = true ∧ r <+: thinkTag ∨
    st.dropRedundantThinkOpeners = false ∧ r <+: reasoningCloseMarker ∧ ¬ r <+: thinkTag

/-- The next text of an undecided state. -/
theorem Undecided.round {st : RawState} {n : ℕ} {r : Text} (h : st.Undecided n r) (gen : Generation) (delta : Text) :
    ∃ m r', st.text ++ delta = openers m ++ r' ∧ ¬ thinkTag <+: r' ∧
      let st' : RawState := { st with gen := gen, text := st.text ++ delta }
      ((¬ reasoningCloseMarker <+: r' ∧ ∃ drop, st'.reasoningRound =
          ([], false, { st' with emitted := thinkTag.length * m, dropRedundantThinkOpeners := drop }) ∧
            ({ st' with emitted := thinkTag.length * m, dropRedundantThinkOpeners := drop } : RawState).Undecided m
              r') ∨
        (reasoningCloseMarker <+: r' ∧ st'.reasoningRound = ([], true, { st' with
          emitted := thinkTag.length * m + reasoningCloseMarker.length
          dropRedundantThinkOpeners := false
          reasoningActive := false
          gen := { gen with inReasoning := false } })) ∨
        (¬ r' <+: thinkTag ∧ ¬ r' <+: reasoningCloseMarker ∧ ¬ reasoningCloseMarker <+: r' ∧
          st'.reasoningRound.1 ≠ [])) := by
  obtain ⟨k, r', hrest, hr'⟩ := exists_openers (r ++ delta)
  have htext : st.text ++ delta = openers (n + k) ++ r' := by
    rw [h.text, List.append_assoc, hrest, openers_add, List.append_assoc]
  refine ⟨n + k, r', htext, hr', ?_⟩
  dsimp only
  -- once the openers are over, the rest is no start of an opener
  have hclosed : st.dropRedundantThinkOpeners = false → k = 0 ∧ ¬ r' <+: thinkTag := by
    intro hdrop
    obtain ⟨hopen, -⟩ | ⟨-, -, hnot⟩ := h.tag
    · rw [hdrop] at hopen
      cases hopen
    · have happ := not_prefix_append h.rest hnot delta
      have hk : k = 0 := by
        cases k with
        | zero => rfl
        | succ k =>
          rw [hrest, openers_succ, List.append_assoc] at happ
          exact absurd (List.prefix_append _ _) happ
      subst hk
      refine ⟨rfl, fun hp => hnot ?_⟩
      rw [show r' = r ++ delta from hrest.symm] at hp
      exact (List.prefix_append r delta).trans hp
  by_cases hopen : r' <+: thinkTag
  · have hdrop : st.dropRedundantThinkOpeners = true := by
      by_contra hfalse
      exact (hclosed (Bool.eq_false_iff.2 hfalse)).2 hopen
    have hskip : skipRedundantThinkOpeners (st.text ++ delta) st.emitted = (thinkTag.length * (n + k), true) := by
      rw [htext, h.emitted, skip_openers hr' (Nat.le_add_right n k), List.isPrefixOf_iff_prefix.2 hopen, Bool.or_true]
    have hnotclose : ¬ reasoningCloseMarker <+: r' := fun hp => absurd (hp.trans hopen) (by decide)
    refine .inl ⟨hnotclose, true, ?_, htext, rfl, h.active, h.holding, hr', .inl ⟨rfl, hopen⟩⟩
    unfold reasoningRound
    dsimp only
    rw [if_pos hdrop, hskip, if_pos rfl]
  · have hne : r' ≠ [] := by
      rintro rfl
      exact hopen List.nil_prefix
    have hround : ({ st with gen := gen, text := st.text ++ delta } : RawState).reasoningRound = ({ st with
        gen := gen
        text := st.text ++ delta
        emitted := thinkTag.length * (n + k)
        dropRedundantThinkOpeners := false } : RawState).reasoningText := by
      unfold reasoningRound
      dsimp only
      cases hdrop : st.dropRedundantThinkOpeners with
      | true =>
        have hskip : skipRedundantThinkOpeners (st.text ++ delta) st.emitted = (thinkTag.length * (n + k), false) := by
          have hempty : r'.isEmpty = false := by simpa using hne
          have hnot : r'.isPrefixOf thinkTag = false := by
            rw [Bool.eq_false_iff]
            exact fun hp => hopen (List.isPrefixOf_iff_prefix.1 hp)
          rw [htext, h.emitted, skip_openers hr' (Nat.le_add_right n k), hempty, hnot]
          rfl
        rw [if_pos rfl, hskip, if_neg Bool.false_ne_true]
      | false =>
        have hk := (hclosed hdrop).1
        subst hk
        rw [if_neg (by decide), ← hdrop, Nat.add_zero, ← h.emitted]
    rw [hround]
    rcases @reasoningText_cases { st with
      gen := gen
      text := st.text ++ delta
      emitted := thinkTag.length * (n + k)
      dropRedundantThinkOpeners := false } _ _ htext rfl hne with
        ⟨hclose, heq⟩ | ⟨hp, hclose, heq⟩ | ⟨hp, hclose, hys⟩
    · exact .inr (.inl ⟨hclose, heq⟩)
    · exact .inl ⟨hclose, false, heq, htext, rfl, h.active, h.holding, hr', .inr ⟨rfl, hp, hopen⟩⟩
    · exact .inr (.inr ⟨hopen, hp, hclose, hys⟩)

end RawState

section silent

variable {stops markers : List Text} {reasoningOpen : Bool} {last t : Text} {texts : List Text}

theorem silent_cons_none (h : contentStart reasoningOpen t = none) :
    silent stops markers reasoningOpen last (t :: texts) = silent stops markers reasoningOpen t texts := by
  unfold silent
  rw [List.dropWhile_cons_of_pos (by rw [h]; rfl), List.getLastD_cons]

theorem silent_cons_some {start : ℕ} (h : contentStart reasoningOpen t = some start) :
    silent stops markers reasoningOpen last (t :: texts) = silentContent stops markers start [] (t :: texts) := by
  unfold silent
  rw [List.dropWhile_cons_of_neg (by simp [h])]
  dsimp only
  rw [h]
  rfl

/-- Behind reasoning nothing is silent. -/
theorem silent_of_reasoning {n : ℕ} {r : Text} (ht : t = openers n ++ r) (hgrows : Grows (t :: texts))
    (hopen : ¬ thinkTag <+: r) (hopen' : ¬ r <+: thinkTag) (hclose : ¬ reasoningCloseMarker <+: r)
    (hclose' : ¬ r <+: reasoningCloseMarker) : silent stops markers true last (t :: texts) = false := by
  have hne : 0 < r.length := List.length_pos_iff.2 fun hnil => hopen' (hnil ▸ List.nil_prefix)
  have hall : ∀ u ∈ t :: texts, ∃ x, u = openers n ++ (r ++ x) := by
    intro u hu
    rcases List.mem_cons.1 hu with rfl | hu
    · exact ⟨[], by rw [ht, List.append_nil]⟩
    · obtain ⟨x, hx⟩ := ((List.pairwise_cons.1 hgrows).1 u hu).1
      exact ⟨x, by rw [← hx, ht, List.append_assoc]⟩
  have hdrop : (t :: texts).dropWhile (fun t => (contentStart true t).isNone) = [] := by
    refine List.dropWhile_eq_nil_iff.2 fun u hu => ?_
    obtain ⟨x, rfl⟩ := hall u hu
    rw [contentStart_openers (not_prefix_append hopen hopen' x),
      if_neg (fun hp => not_prefix_append hclose hclose' x (List.isPrefixOf_iff_prefix.1 hp))]
    rfl
  unfold silent
  rw [hdrop]
  dsimp only
  obtain ⟨x, hx⟩ := hall ((t :: texts).getLastD last) (by rw [List.getLastD_cons]; exact List.getLastD_mem_cons ..)
  have hskip := skip_openers (n := n) (i := 0) (not_prefix_append hopen hopen' x) (Nat.zero_le n)
  rw [Nat.mul_zero] at hskip
  rw [hx, hskip, decide_eq_false]
  rw [List.length_append, length_openers, List.length_append]
  omega

end silent

namespace RawState

variable {decode : List ℤ → Text} {maxTokens : ℕ} {stops markers : List Text}

/-- A round with a yield is not quiet, whether or not it stops. -/
theorem not_quiet {st : RawState} {ids : List ℤ} {items : List Item} {r : List Yield × Bool × List ℤ × RawState}
    (h : st.loop decode maxTokens stops markers (.tokens ids :: items) = .ok r)
    (hys : (st.round decode maxTokens stops markers ids).1 ≠ []) : ¬ Quiet maxTokens r := by
  intro hquiet
  cases hround : st.round decode maxTokens stops markers ids with
  | mk ys next =>
    obtain ⟨stopped, st'⟩ := next
    rw [hround] at hys
    cases stopped with
    | true =>
      have hr := loop_stop h hround
      subst hr
      exact hys hquiet.1
    | false =>
      obtain ⟨rest, -, hiff⟩ := quiet_tokens h hround
      exact hys (hiff.1 hquiet).1

/-- The rounds of the reasoning, and of the content behind it. -/
theorem Undecided.quiet (items : List Item) {st : RawState} {n : ℕ} {r : Text} (hst : st.Undecided n r)
    {res : List Yield × Bool × List ℤ × RawState} (h : st.loop decode maxTokens stops markers items = .ok res) :
    Quiet maxTokens res ↔
      silent stops markers true st.text (textsFrom decode maxTokens items st.gen st.text) = true := by
  induction items generalizing st n r res with
  | nil =>
    cases h
    have hskip := skip_openers (n := n) (i := 0) hst.rest (Nat.zero_le n)
    rw [Nat.mul_zero, ← hst.text] at hskip
    have hlen : st.text.length = thinkTag.length * n + r.length := by rw [hst.text, List.length_append, length_openers]
    unfold Quiet finish flush silent textsFrom
    simp only [List.dropWhile_nil, List.getLastD_nil, hskip, hst.active, hst.holding, hst.emitted, hlen, Bool.true_and]
    by_cases hr : r.length = 0
    · simp [hr, hst.holding]
    · simp [hr, sendReasoning, Nat.pos_of_ne_zero hr]
  -- an error ends the stream before any result; other items are skipped
  | cons item items ih =>
    cases item with
    | error message => cases h
    | other => exact ih hst h
    | tokens ids =>
      rcases round_cases decode maxTokens stops markers st ids items with
        ⟨gen, hround, htexts⟩ | ⟨gen, t, hround, htexts⟩
      · obtain ⟨rest, hrest, hquiet⟩ := quiet_tokens h hround
        have hnext : ({ st with gen := gen } : RawState).Undecided n r :=
          ⟨hst.text, hst.emitted, hst.active, hst.holding, hst.rest, hst.tag⟩
        rw [htexts, hquiet, ih hnext hrest]
        exact and_iff_right rfl
      · have hgrows := textsFrom_grows decode maxTokens (.tokens ids :: items) st.gen st.text
        rw [htexts] at hgrows ⊢
        obtain ⟨delta, rfl⟩ := ((List.pairwise_cons.1 hgrows).1 t List.mem_cons_self).1
        obtain ⟨m, r', htext, hr', hcases⟩ := hst.round gen delta
        have htextRound : ({ st with gen := gen, text := st.text ++ delta } : RawState).textRound stops markers =
            (let q := ({ st with gen := gen, text := st.text ++ delta } : RawState).reasoningRound
            if q.2.1 then (q.1 ++ (q.2.2.contentRound stops markers).1, (q.2.2.contentRound stops markers).2)
            else (q.1, false, q.2.2)) := if_pos hst.active
        rw [htextRound] at hround
        dsimp only at hround hcases
        rcases hcases with ⟨hclose, drop, heq, hnext⟩ | ⟨hclose, heq⟩ | ⟨hopen, hclose', hclose, hys⟩
        · have hnone : contentStart true (st.text ++ delta) = none := by
            rw [htext, contentStart_openers hr', if_neg (fun hp => hclose (List.isPrefixOf_iff_prefix.1 hp))]
          rw [heq] at hround
          obtain ⟨rest, hrest, hquiet⟩ := quiet_tokens h hround
          rw [silent_cons_none hnone, hquiet, ih hnext hrest]
          exact and_iff_right rfl
        · have hsome : contentStart true (st.text ++ delta) =
              some (thinkTag.length * m + reasoningCloseMarker.length) := by
            rw [htext, contentStart_openers hr', if_pos (List.isPrefixOf_iff_prefix.2 hclose)]
          rw [heq] at hround
          have hgrows' := (List.pairwise_cons.1 hgrows).2
          have hlen : thinkTag.length * m + reasoningCloseMarker.length ≤ (st.text ++ delta).length := by
            have := hclose.length_le
            rw [htext, List.length_append, length_openers]
            omega
          have hne : st.text ++ delta ≠ [] := by
            have hpos : 0 < reasoningCloseMarker.length := by decide
            exact List.ne_nil_of_length_pos (by omega)
          rw [contentRound_quiet h hround rfl (fun hactive hrest => content_quiet items hactive hrest) [],
            silent_cons_some hsome,
            @textsFrom_congr decode maxTokens items { gen with inReasoning := false } gen
              (st.text ++ delta) ⟨rfl, rfl, rfl⟩]
          dsimp only
          rw [hst.holding, silentRun_cons_eq hgrows' hlen (silentRun_eq hgrows' hne hlen) [] []]
        · have hloud : (st.round decode maxTokens stops markers ids).1 ≠ [] := by
            rw [hround]
            split
            · exact fun hnil => hys (List.append_eq_nil_iff.1 hnil).1
            · exact hys
          rw [silent_of_reasoning htext (List.pairwise_cons.1 hgrows).2 hr' hopen hclose hclose']
          exact iff_of_false (not_quiet h hloud) Bool.false_ne_true

/-- **Which streams yield nothing**, from the first item on. -/
theorem init_quiet {reasoningOpen : Bool} {items : List Item} {r : List Yield × Bool × List ℤ × RawState}
    (h : (RawState.init reasoningOpen).loop decode maxTokens stops markers items = .ok r) : Quiet maxTokens r ↔
      silent stops markers reasoningOpen [] (textsFrom decode maxTokens items {} []) = true := by
  cases reasoningOpen with
  | true =>
    have hinit : (RawState.init true).Undecided 0 [] :=
      ⟨rfl, rfl, rfl, rfl, by decide, .inl ⟨rfl, List.nil_prefix⟩⟩
    exact hinit.quiet items h
  | false =>
    rw [content_quiet items rfl h]
    have hgrows := textsFrom_grows decode maxTokens items {} []
    change silentRun stops markers 0 false [] (textsFrom decode maxTokens items {} []) = true ↔ _
    cases htexts : textsFrom decode maxTokens items {} [] with
    | nil => simp [silentRun, silent, skipRedundantThinkOpeners, skipOpeners]
    | cons t texts =>
      rw [htexts] at hgrows
      obtain ⟨hfirst, hrest⟩ := List.pairwise_cons.1 hgrows
      have hne : t ≠ [] := List.ne_nil_of_length_pos (hfirst t List.mem_cons_self).2
      have hzero : contentStart false t = some 0 := rfl
      rw [silent_cons_some hzero, silentRun_cons_eq hrest (Nat.zero_le _)
        (silentRun_eq hrest hne (Nat.zero_le _)) [] []]

end RawState

/-! ## The tokens -/

/-- The tokens of all items. -/
def tokensOf (items : List Item) : List ℤ :=
  items.flatMap (fun item => match item with
    | .tokens ids => ids
    | _ => [])

/-- The consumer ends with the tokens read, up to the limit, and with the reason decided at the end. -/
def Stream.Complete (s : Stream) (maxTokens : ℕ) : Prop :=
  s.handed.tokenIds = s.received.take maxTokens ∧ s.handed.finishReason = s.gen.finishReason

instance (s : Stream) (maxTokens : ℕ) : Decidable (s.Complete maxTokens) := by
  unfold Stream.Complete
  infer_instance

theorem tokenIds_incrementalDetokenize (decode : List ℤ → Text) (gen : Generation) :
    (incrementalDetokenize decode gen).2.tokenIds = gen.tokenIds := by
  unfold incrementalDetokenize
  dsimp only
  split <;> rfl

/-- Two bundles are received like one. -/
theorem take_received (a x y : List ℤ) (maxTokens : ℕ) :
    a ++ x.take (maxTokens - a.length) ++ y.take (maxTokens - (a ++ x.take (maxTokens - a.length)).length) =
      a ++ (x ++ y).take (maxTokens - a.length) := by
  rw [List.append_assoc, List.take_append, List.length_append, List.length_take]
  congr 3
  omega

namespace RawState

variable {decode : List ℤ → Text} {maxTokens : ℕ} {stops markers : List Text}

theorem tokenIds_reasoningText (st : RawState) : st.reasoningText.2.2.gen.tokenIds = st.gen.tokenIds := by
  unfold reasoningText sendReasoning
  split
  · dsimp only
    split <;> rfl
  · dsimp only
    split <;> rfl

theorem tokenIds_reasoningRound (st : RawState) : st.reasoningRound.2.2.gen.tokenIds = st.gen.tokenIds := by
  unfold reasoningRound
  split
  · dsimp only
    split
    · rfl
    · exact tokenIds_reasoningText _
  · exact tokenIds_reasoningText st

theorem tokenIds_contentRound (st : RawState) : (st.contentRound stops markers).2.2.gen.tokenIds = st.gen.tokenIds := by
  unfold contentRound
  split
  · split <;> rfl
  · split
    · split <;> rfl
    · dsimp only
      split
      · rfl
      · split <;> rfl

theorem tokenIds_round (st : RawState) (ids : List ℤ) :
    (st.round decode maxTokens stops markers ids).2.2.gen.tokenIds =
    st.gen.tokenIds ++ ids.take (maxTokens - st.gen.tokenIds.length) := by
  unfold round receive
  by_cases hle : maxTokens ≤ st.gen.tokenIds.length
  · rw [if_pos hle]
    simp [Nat.sub_eq_zero_of_le hle]
  · rw [if_neg hle]
    dsimp only
    split
    · exact tokenIds_incrementalDetokenize decode _
    · unfold textRound
      split
      · dsimp only
        split
        · exact (tokenIds_contentRound _).trans
            ((tokenIds_reasoningRound _).trans (tokenIds_incrementalDetokenize decode _))
        · exact (tokenIds_reasoningRound _).trans (tokenIds_incrementalDetokenize decode _)
      · exact (tokenIds_contentRound _).trans (tokenIds_incrementalDetokenize decode _)

/-- Without tokens there is no text. -/
theorem round_nil {st : RawState} (hids : st.gen.tokenIds = []) :
    ∃ gen, gen.tokenIds = [] ∧ st.round decode maxTokens stops markers [] =
      ([], false, { st with gen := gen }) := by
  unfold round receive
  by_cases hle : maxTokens ≤ st.gen.tokenIds.length
  · rw [if_pos hle]
    exact ⟨st.gen, hids, rfl⟩
  · have hdelta : ∀ gen : Generation, gen.tokenIds = [] → (incrementalDetokenize decode gen).1 = [] := by
      intro gen hgen
      unfold incrementalDetokenize
      rw [hgen]
      simp
    have hnil : st.gen.tokenIds ++ ([] : List ℤ).take (maxTokens - st.gen.tokenIds.length) = [] := by rw [hids]; simp
    rw [if_neg hle]
    dsimp only
    rw [hdelta _ hnil, if_pos List.isEmpty_nil]
    exact ⟨_, (tokenIds_incrementalDetokenize decode _).trans hnil, rfl⟩

theorem tokenIds_loop (items : List Item) {st : RawState} {r : List Yield × Bool × List ℤ × RawState}
    (h : st.loop decode maxTokens stops markers items = .ok r) :
    r.2.2.2.gen.tokenIds = st.gen.tokenIds ++ r.2.2.1.take (maxTokens - st.gen.tokenIds.length) := by
  induction items generalizing st r with
  | nil =>
    cases h
    simp
  | cons item items ih =>
    cases item with
    | error message => cases h
    | other => exact ih h
    | tokens ids =>
      cases hround : st.round decode maxTokens stops markers ids with
      | mk ys next =>
        obtain ⟨stopped, st'⟩ := next
        have hids := @tokenIds_round decode maxTokens stops markers st ids
        rw [hround] at hids
        cases stopped with
        | true =>
          have hr := loop_stop h hround
          subst hr
          exact hids
        | false =>
          obtain ⟨rest, hrest, rfl⟩ := loop_tokens h hround
          rw [ih hrest, hids, take_received]

/-- What is read is a start of what was sent, and all of it unless a stop string was hit. -/
theorem received_loop (items : List Item) {st : RawState} {r : List Yield × Bool × List ℤ × RawState}
    (h : st.loop decode maxTokens stops markers items = .ok r) :
    r.2.2.1 <+: tokensOf items ∧ (r.2.1 = false → r.2.2.1 = tokensOf items) := by
  induction items generalizing st r with
  | nil =>
    cases h
    exact ⟨List.prefix_rfl, fun _ => rfl⟩
  | cons item items ih =>
    cases item with
    | error message => cases h
    | other => exact ih h
    | tokens ids =>
      have hcons : tokensOf (.tokens ids :: items) = ids ++ tokensOf items := List.flatMap_cons
      rw [hcons]
      cases hround : st.round decode maxTokens stops markers ids with
      | mk ys next =>
        obtain ⟨stopped, st'⟩ := next
        cases stopped with
        | true =>
          have hr := loop_stop h hround
          subst hr
          exact ⟨List.prefix_append _ _, fun hfalse => by cases hfalse⟩
        | false =>
          obtain ⟨rest, hrest, rfl⟩ := loop_tokens h hround
          obtain ⟨hstart, hall⟩ := ih hrest
          exact ⟨(List.prefix_append_right_inj ids).2 hstart, fun hfalse => congrArg (ids ++ ·) (hall hfalse)⟩

/-- A stop string needs tokens. -/
theorem received_ne_nil (items : List Item) {st : RawState} {r : List Yield × Bool × List ℤ × RawState}
    (h : st.loop decode maxTokens stops markers items = .ok r) (hids : st.gen.tokenIds = []) (hnil : r.2.2.1 = []) :
    r.2.1 = false := by
  induction items generalizing st r with
  | nil =>
    cases h
    rfl
  | cons item items ih =>
    cases item with
    | error message => cases h
    | other => exact ih h hids hnil
    | tokens ids =>
      have hempty : ids = [] := by
        cases hround : st.round decode maxTokens stops markers ids with
        | mk ys next =>
          obtain ⟨stopped, st'⟩ := next
          cases stopped with
          | true =>
            have hr := loop_stop h hround
            subst hr
            exact hnil
          | false =>
            obtain ⟨rest, -, rfl⟩ := loop_tokens h hround
            exact (List.append_eq_nil_iff.1 hnil).1
      subst hempty
      obtain ⟨gen, hgen, hround⟩ := @round_nil decode maxTokens stops markers st hids
      obtain ⟨rest, hrest, rfl⟩ := loop_tokens h hround
      exact ih hrest hgen hnil

theorem tokenIds_flush (st : RawState) : st.flush.2.gen.tokenIds = st.gen.tokenIds := by
  unfold flush sendReasoning
  split
  · rfl
  · split <;> rfl

theorem tokenIds_finish (stopped : Bool) (st : RawState) :
    (st.finish maxTokens stopped).2.tokenIds = st.gen.tokenIds := by
  cases stopped with
  | true => rfl
  | false => exact tokenIds_flush st

end RawState

/-! ## Both kinds of parsers -/

section structured

variable {V : Type} [Json V] [WordChars] {decode : List ℤ → Text} {maxTokens : ℕ} {stops : List Text}

omit [WordChars] in
theorem tokenIds_applyParsedDeltas (deltas : List Delta) (gen : Generation) :
    (applyParsedDeltas deltas gen).2.tokenIds = gen.tokenIds := by
  induction deltas generalizing gen with
  | nil => rfl
  | cons delta deltas ih =>
    unfold applyParsedDeltas
    dsimp only
    rw [ih]
    cases delta <;> rfl

theorem StructuredState.tokenIds_round (st : StructuredState V) (ids : List ℤ) :
    (st.round decode maxTokens stops ids).2.2.gen.tokenIds =
      st.gen.tokenIds ++ ids.take (maxTokens - st.gen.tokenIds.length) := by
  unfold StructuredState.round receive
  by_cases hle : maxTokens ≤ st.gen.tokenIds.length
  · rw [if_pos hle]
    simp [Nat.sub_eq_zero_of_le hle]
  · rw [if_neg hle]
    exact (tokenIds_applyParsedDeltas _ _).trans (tokenIds_incrementalDetokenize decode _)

theorem StructuredState.tokenIds_loop (items : List Item) {st : StructuredState V}
    {r : List Yield × Bool × List ℤ × StructuredState V} (h : st.loop decode maxTokens stops items = .ok r) :
    r.2.2.2.gen.tokenIds = st.gen.tokenIds ++ r.2.2.1.take (maxTokens - st.gen.tokenIds.length) := by
  induction items generalizing st r with
  | nil =>
    cases h
    simp
  | cons item items ih =>
    cases item with
    | error message => cases h
    | other => exact ih h
    | tokens ids =>
      have hids := @StructuredState.tokenIds_round V _ _ decode maxTokens stops st ids
      unfold StructuredState.loop at h
      dsimp only at h
      split at h
      · cases h
        exact hids
      · cases hrest : (st.round decode maxTokens stops ids).2.2.loop decode maxTokens stops items with
        | error message =>
          rw [hrest] at h
          cases h
        | ok rest =>
          rw [hrest] at h
          cases h
          dsimp only
          rw [ih hrest, hids, take_received]

/-- The last yield of the structured path hands the whole generation over. -/
theorem structured_complete {c : StreamConfig} {items : List Item} {s : Stream}
    (h : streamStructuredText V decode c items = .ok s) : s.Complete c.maxTokens := by
  unfold streamStructuredText at h
  dsimp only at h
  cases hloop : (⟨{ parsedOutput := true }, [], Parser.new c.reasoningOpen⟩ : StructuredState V).loop
    decode c.maxTokens
    (c.stop.getD []) items with
  | error message =>
    rw [hloop] at h
    cases h
  | ok r =>
    rw [hloop] at h
    cases h
    have hids := StructuredState.tokenIds_loop items hloop
    unfold Stream.Complete Stream.handed StructuredState.finish
    rw [if_neg (by simp)]
    refine ⟨?_, rfl⟩
    dsimp only
    rw [tokenIds_applyParsedDeltas, hids]
    rfl

end structured

/-- The raw path hands the whole generation over unless its texts are silent. -/
theorem raw_complete_iff {decode : List ℤ → Text} {c : StreamConfig} {items : List Item} {s : Stream}
    (hmax : 1 ≤ c.maxTokens)
    (h : streamTextRaw decode c items = .ok s) : s.Complete c.maxTokens ↔ tokensOf items = [] ∨
      silent (c.stop.getD []) (c.holdMarkers.getD []) c.reasoningOpen []
        (textsFrom decode c.maxTokens items {} []) = false := by
  unfold streamTextRaw at h
  cases hloop : (RawState.init c.reasoningOpen).loop decode c.maxTokens (c.stop.getD [])
    (c.holdMarkers.getD []) items with
  | error message =>
    rw [hloop] at h
    cases h
  | ok r =>
    rw [hloop] at h
    cases h
    have hids : (r.2.2.2.finish c.maxTokens r.2.1).2.tokenIds = r.2.2.1.take c.maxTokens := by
      rw [RawState.tokenIds_finish, RawState.tokenIds_loop items hloop]
      rfl
    have hquiet := RawState.init_quiet hloop
    obtain ⟨hstart, hall⟩ := RawState.received_loop items hloop
    -- a quiet stream hands over nothing, and any other hands over what it received
    by_cases hq : RawState.Quiet c.maxTokens r
    · have hnil : r.1 ++ (r.2.2.2.finish c.maxTokens r.2.1).1 = [] := by rw [hq.1, hq.2, List.append_nil]
      rw [hquiet.1 hq]
      unfold Stream.Complete Stream.handed
      dsimp only
      rw [hnil, if_pos List.isEmpty_nil]
      constructor
      · rintro ⟨hempty, -⟩
        have hreceived : r.2.2.1 = [] := (List.take_eq_nil_iff.1 hempty.symm).resolve_left (by omega)
        exact .inl ((hall (RawState.received_ne_nil items hloop rfl hreceived)).symm.trans hreceived)
      · rintro (htokens | hfalse)
        · have hreceived : r.2.2.1 = [] := List.prefix_nil.1 (htokens ▸ hstart)
          refine ⟨by rw [hreceived, List.take_nil], ?_⟩
          have hstopped := RawState.received_ne_nil items hloop rfl hreceived
          rw [hreceived, List.take_nil, RawState.tokenIds_finish] at hids
          unfold RawState.finish
          dsimp only
          rw [hstopped, if_neg Bool.false_ne_true, if_neg Bool.false_ne_true, RawState.tokenIds_flush, hids,
            if_neg (by rw [List.length_nil]; omega)]
        · cases hfalse
    · have hsilent := mt hquiet.2 hq
      rw [Bool.not_eq_true] at hsilent
      have hne : r.1 ++ (r.2.2.2.finish c.maxTokens r.2.1).1 ≠ [] := fun hnil => hq (List.append_eq_nil_iff.1 hnil)
      refine iff_of_true ?_ (.inr hsilent)
      unfold Stream.Complete Stream.handed
      rw [if_neg (by simpa using hne)]
      exact ⟨hids, rfl⟩

/-- **The consumer ends with the whole generation**, unless a raw stream of tokens is silent. -/
theorem handed_complete_iff (V : Type) [Json V] [WordChars] (structured : Bool)
    (decode : List ℤ → Text) (c : StreamConfig)
    (items : List Item) {s : Stream} (hmax : 1 ≤ c.maxTokens) (h : streamText V structured decode c items = .ok s) :
    s.Complete c.maxTokens ↔ structured = true ∨ tokensOf items = [] ∨
      silent (c.stop.getD []) (c.holdMarkers.getD []) c.reasoningOpen []
        (textsFrom decode c.maxTokens items {} []) = false := by
  unfold streamText at h
  cases structured with
  | true =>
    rw [if_pos rfl] at h
    exact iff_of_true (structured_complete h) (.inl rfl)
  | false =>
    rw [if_neg Bool.false_ne_true] at h
    rw [raw_complete_iff hmax h]
    simp

/-- A tokenizer with one token for every character. -/
def decodeChars (ids : List ℤ) : Text := ids.map (fun id => Char.ofNat id.toNat)

def encodeChars (text : String) : List ℤ := text.toList.map (fun c => (c.toNat : ℤ))

/-- A chat with tools, after a prompt that opened the reasoning. -/
def toolChat : StreamConfig := ⟨100, none, some ["<tool_call>".toList, "<think>".toList], true⟩

attribute [local instance] jsonText asciiWords

def shortReasoning : List Item := [.tokens (encodeChars "ab</thi"), .other, .tokens (encodeChars "nk><tool_call>")]

theorem handed_complete_shortReasoning :
    ∃ s, streamText Text false decodeChars toolChat shortReasoning = .ok s ∧ s.Complete 100 := by
  obtain ⟨s, hs⟩ : ∃ s, streamText Text false decodeChars toolChat shortReasoning = .ok s := ⟨_, rfl⟩
  exact ⟨s, hs, (handed_complete_iff Text false decodeChars toolChat shortReasoning (by decide) hs).2
    (.inr (.inr (by decide +kernel)))⟩

-- an empty reasoning region and then a tool call: the call is lost
theorem not_handed_complete : ∃ s, streamText Text false decodeChars toolChat
    [.tokens (encodeChars "</think><tool_call>\x7b\x7d</tool_call>")] = .ok s ∧
      s.received ≠ [] ∧ s.handed = {} ∧
      ¬ s.Complete 100 :=
  ⟨_, rfl, by decide +kernel, by decide +kernel, by decide +kernel⟩

end NanoEngine.Server
