import NanoEngine.Kimi.Parser

/-!
# NanoEngine.Kimi.Chunks — the parser and the chunks it is fed

* A parser `Continues` another when it has already put out a part of what the other one will.
* Fed a text, a parser that is `Quiet` (it has done all it can with what is pending) goes on as if the whole had been
  fed at once: `feedAll_eq`. One round is the exception: a think opener behind the first text of an open think channel
  (`opensLate`).
* `exists_late` finds the round, and cutting the text inside that opener gives another reading: `parseChunks_eq_iff`.
-/

namespace NanoEngine.Kimi

open Markers

/-- All markers of the channels. -/
def channelMarkers : List Text :=
  [messageClose, endOfMessage, toolsOpen, thinkOpen, thinkClose, responseOpen, responseClose]

def tagMarkers : List Text := [openTag, closeTag, endOfMessage]

theorem channelMarkers_apart : Apart channelMarkers := by decide

theorem tagMarkers_apart : Apart tagMarkers := by decide

theorem argumentClose_apart : Apart [argumentClose] := by decide

/-! ## Outputs -/

def Output.append (a b : Output) : Output :=
  ⟨a.reasoning ++ b.reasoning, a.content ++ b.content, a.calls ++ b.calls⟩

instance : Append Output := ⟨Output.append⟩

theorem Output.append_def (a b : Output) :
    a ++ b = ⟨a.reasoning ++ b.reasoning, a.content ++ b.content, a.calls ++ b.calls⟩ := rfl

theorem Output.append_assoc (a b c : Output) : a ++ b ++ c = a ++ (b ++ c) := by
  simp only [append_def, List.append_assoc]

@[simp] theorem outputOf_nil_append (a : Output) : outputOf [] ++ a = a := rfl

theorem outputOf_append (d d' : List Delta) : outputOf (d ++ d') = outputOf d ++ outputOf d' := by
  induction d with
  | nil => rfl
  | cons delta d ih => cases delta <;> simp [outputOf, ih, Output.append_def]

namespace Parser

variable {V : Type}

/-! ## Transitions -/

theorem markers_subset (p : Parser V) : p.markers ⊆ channelMarkers := by
  unfold markers transitions
  cases p.state <;> cases p.reasoningEmitted <;> simp [channelMarkers]

theorem markers_apart (p : Parser V) : Apart p.markers := channelMarkers_apart.mono p.markers_subset

/-- Text is passed on as it is. -/
def Plain (p : Parser V) : Prop := p.state = .response ∨ p.state = .think ∧ p.reasoningEmitted = true

theorem Plain.skipsBlank {p : Parser V} (h : p.Plain) : p.skipsBlank = false := by
  unfold Parser.skipsBlank
  rcases h with h | h
  · rw [h]
    rfl
  · rw [h.1]
    rfl

/-- The part of `_text` that is put out. -/
theorem text_eq_of_plain {p : Parser V} (h : p.Plain) (t : Text) : (p.text t).2 = p := by
  unfold text
  split
  · rfl
  · rcases h with h | h
    · rw [if_neg (by rw [h]; decide), if_neg (by simp [Plain.skipsBlank (.inl h)])]
    · rw [if_pos h.1]
      cases p
      simp_all

theorem outputOf_text_append {p : Parser V} (h : p.Plain) (a b : Text) :
    outputOf (p.text (a ++ b)).1 = outputOf (p.text a).1 ++ outputOf (p.text b).1 := by
  have hskip := h.skipsBlank
  unfold text
  cases a with
  | nil => simp
  | cons x a =>
    cases b with
    | nil => rcases h with h | h <;> simp [h, outputOf, Output.append_def, hskip]
    | cons y b => rcases h with h | h <;> simp [h, outputOf, Output.append_def, hskip]

theorem pending_text (p : Parser V) (t : Text) : (p.text t).2.pending = p.pending := by
  unfold text
  split
  · rfl
  · split
    · rfl
    · split
      · split <;> rfl
      · rfl

theorem text_pending (p : Parser V) (z t : Text) : ({ p with pending := z }.text t).1 = (p.text t).1 := by
  unfold text skipsBlank
  split
  · rfl
  · split
    · rfl
    · split
      · split <;> rfl
      · rfl

/-! ## One round on a cut text -/

/-- A marker is found: the round in terms of the cut. -/
theorem channelStep_found (p : Parser V) {u m v : Text} (hm : m ∈ p.markers) (hpending : p.pending = u ++ (m ++ v))
    (hs : Skips p.markers u (m ++ v)) : p.channelStep =
      if p.skipsBlank && !isBlank u then
        (({ p with pending := m ++ v }.text u).1, true, ({ p with pending := m ++ v }.text u).2)
      else
        ((p.text u).1, true, { (p.text u).2 with pending := v, state := (dictGet p.transitions m).getD p.state }) := by
  unfold channelStep
  rw [hpending, findFirst_of_skips p.markers_apart hm hs]
  dsimp only
  have hdrop : (u ++ (m ++ v)).drop (u.length + m.length) = v := by
    rw [← List.append_assoc, ← List.length_append, List.drop_left]
  rw [List.take_left, List.drop_left, hdrop]

/-- No marker is found. -/
theorem channelStep_held (p : Parser V) {u v : Text} (hpending : p.pending = u ++ v) (hs : Skips p.markers u v)
    (hv : Held p.markers v) : p.channelStep =
      if u.isEmpty || p.skipsBlank && isBlank u then ([], false, p)
      else (({ p with pending := v }.text u).1, true, ({ p with pending := v }.text u).2) := by
  unfold channelStep
  rw [hpending, findFirst_of_held p.markers_apart hs hv, overlap_of_skips hs hv]
  dsimp only
  have hsize : (u ++ v).length - v.length = u.length := by
    rw [List.length_append, Nat.add_sub_cancel]
  rw [hsize, List.take_left, List.drop_left]
  cases u <;> rfl

section json

variable [Json V]

theorem argumentStep_found (p : Parser V) {u v : Text} (hpending : p.pending = u ++ (argumentClose ++ v))
    (hs : Skips [argumentClose] u (argumentClose ++ v)) : p.argumentStep =
      ([], true, { p with
        pending := v
        arguments := if ((dictGet p.argumentAttrs "key".toList).getD []).isEmpty then p.arguments
          else dictSet p.arguments ((dictGet p.argumentAttrs "key".toList).getD [])
            (p.argumentValue (p.argumentText ++ u))
        argumentText := []
        state := .call }) := by
  have hfind := findFirst_of_skips argumentClose_apart List.mem_cons_self hs
  rw [findFirst_singleton] at hfind
  obtain ⟨i, hi, heq⟩ := Option.map_eq_some_iff.1 hfind
  cases heq
  unfold argumentStep
  rw [hpending, hi]
  dsimp only
  have hdrop : (u ++ (argumentClose ++ v)).drop (u.length + argumentClose.length) = v := by
    rw [← List.append_assoc, ← List.length_append, List.drop_left]
  rw [List.take_left, hdrop]

theorem argumentStep_held (p : Parser V) {u v : Text} (hpending : p.pending = u ++ v) (hs : Skips [argumentClose] u v)
    (hv : Held [argumentClose] v) :
    p.argumentStep = ([], !u.isEmpty, { p with argumentText := p.argumentText ++ u, pending := v }) := by
  have hfind := findFirst_of_held argumentClose_apart hs hv
  rw [findFirst_singleton, Option.map_eq_none_iff] at hfind
  unfold argumentStep
  rw [hpending, hfind, overlap_of_skips hs hv]
  dsimp only
  have hsize : (u ++ v).length - v.length = u.length := by
    rw [List.length_append, Nat.add_sub_cancel]
  rw [hsize, List.take_left, List.drop_left]
  cases u <;> rfl

variable [WordChars]

/-- What a container round does once its text begins with a marker. -/
def tagRound (p : Parser V) (marker v : Text) : List Delta × Bool × Parser V :=
  if marker = endOfMessage then ([], true, { p with state := .done, pending := [] })
  else match find sepTag v with
    | none => ([], false, { p with pending := marker ++ v })
    | some size =>
      match splitWord (strip (v.take size)) with
      | none => ([], true, { p with pending := v.drop (size + sepTag.length) })
      | some (name, raw) =>
        (({ p with pending := v.drop (size + sepTag.length) }.tag marker name raw).1, true,
          ({ p with pending := v.drop (size + sepTag.length) }.tag marker name raw).2)

theorem containerStep_found (p : Parser V) {u m v : Text} (hm : m ∈ tagMarkers) (hpending : p.pending = u ++ (m ++ v))
    (hs : Skips tagMarkers u (m ++ v)) : p.containerStep = p.tagRound m v := by
  have hfind := findFirst_of_skips tagMarkers_apart hm hs
  unfold containerStep tagRound
  dsimp only
  unfold tagMarkers at hfind
  rw [hpending, hfind]
  cases hsep : find sepTag v with
  | none => simp only [List.drop_left, hsep]
  | some size => cases hword : splitWord (strip (v.take size)) <;> simp only [List.drop_left, hsep, hword]

theorem containerStep_held (p : Parser V) {u v : Text} (hpending : p.pending = u ++ v) (hs : Skips tagMarkers u v)
    (hv : Held tagMarkers v) : p.containerStep = ([], false, { p with pending := v }) := by
  have hfind := findFirst_of_held tagMarkers_apart hs hv
  have hkeep := overlap_of_skips hs hv
  unfold tagMarkers at hfind hkeep
  unfold containerStep
  dsimp only
  rw [hpending, hfind, hkeep]
  dsimp only
  have hsize : (u ++ v).length - v.length = u.length := by
    rw [List.length_append, Nat.add_sub_cancel]
  rw [hsize, List.drop_left]

theorem pending_tag (p : Parser V) (marker name raw : Text) : (p.tag marker name raw).2.pending = p.pending := by
  unfold tag
  repeat' split
  all_goals rfl

/-! ## The loop ends -/

/-- A round that makes progress shortens what is pending. -/
theorem length_step_lt {p : Parser V} (hne : p.pending ≠ []) (h : p.step.2.1 = true) :
    p.step.2.2.pending.length < p.pending.length := by
  have hpos := List.length_pos_iff.2 hne
  have hchannel : p.channelStep.2.1 = true → p.channelStep.2.2.pending.length < p.pending.length := by
    rcases cut_cases p.markers_apart p.pending with ⟨u, m, v, hm, hp, hs, -⟩ | ⟨u, v, hp, hs, hv, -⟩
    · have hmpos := List.length_pos_iff.2 (p.markers_apart m hm).1
      rw [p.channelStep_found hm hp hs, hp]
      split
      case isTrue hblank =>
        have hu : u ≠ [] := by
          rintro rfl
          simp [isBlank] at hblank
        have hupos := List.length_pos_iff.2 hu
        intro _
        rw [pending_text]
        simp only [List.length_append]
        omega
      case isFalse =>
        intro _
        simp only [List.length_append]
        omega
    · rw [p.channelStep_held hp hs hv, hp]
      split
      case isTrue => intro hfalse; cases hfalse
      case isFalse hblank =>
        have hu : u ≠ [] := by
          rintro rfl
          simp at hblank
        have hupos := List.length_pos_iff.2 hu
        intro _
        rw [pending_text]
        simp only [List.length_append]
        omega
  have hcontainer : p.containerStep.2.1 = true → p.containerStep.2.2.pending.length < p.pending.length := by
    rcases cut_cases tagMarkers_apart p.pending with ⟨u, m, v, hm, hp, hs, -⟩ | ⟨u, v, hp, hs, hv, -⟩
    · have hmpos := List.length_pos_iff.2 (tagMarkers_apart m hm).1
      rw [p.containerStep_found hm hp hs]
      unfold tagRound
      split
      · intro _
        exact hpos
      · rw [hp]
        split
        · intro hfalse; cases hfalse
        · split
          · intro _
            simp only [List.length_append, List.length_drop]
            omega
          · intro _
            rw [pending_tag]
            simp only [List.length_append, List.length_drop]
            omega
    · rw [p.containerStep_held hp hs hv]
      intro hfalse; cases hfalse
  have hargument : p.argumentStep.2.1 = true → p.argumentStep.2.2.pending.length < p.pending.length := by
    rcases cut_cases argumentClose_apart p.pending with ⟨u, m, v, hm, hp, hs, -⟩ | ⟨u, v, hp, hs, hv, -⟩
    · obtain rfl := List.mem_singleton.1 hm
      rw [p.argumentStep_found hp hs, hp]
      intro _
      have : 0 < argumentClose.length := by decide
      simp only [List.length_append]
      omega
    · rw [p.argumentStep_held hp hs hv, hp]
      intro hprogress
      cases u with
      | nil => cases hprogress
      | cons a u =>
        simp only [List.length_append, List.length_cons]
        omega
  -- `done` has no round; `tools` and `call` share one, and so do the four channels
  unfold step at h ⊢
  split at h
  · cases h
  · exact hargument h
  · exact hcontainer h
  · exact hcontainer h
  · exact hchannel h

/-- More fuel than characters changes nothing. -/
theorem loop_fuel {n k : ℕ} {p : Parser V} (hn : p.pending.length ≤ n) (hk : p.pending.length ≤ k) :
    loop n p = loop k p := by
  induction n generalizing p k with
  | zero =>
    have hnil := List.length_eq_zero_iff.1 (Nat.le_zero.1 hn)
    cases k with
    | zero => rfl
    | succ k => simp [loop, hnil]
  | succ n ih =>
    cases k with
    | zero =>
      have hnil := List.length_eq_zero_iff.1 (Nat.le_zero.1 hk)
      simp [loop, hnil]
    | succ k =>
      unfold loop
      by_cases hne : p.pending = []
      · simp [hne]
      · have hfalse : p.pending.isEmpty = false := by simpa using hne
        rw [hfalse]
        dsimp only
        cases hprogress : p.step.2.1 with
        | false => rfl
        | true =>
          have hlt := length_step_lt hne hprogress
          rw [ih (by omega) (show p.step.2.2.pending.length ≤ k by omega)]

theorem run_nil {p : Parser V} (h : p.pending = []) : p.run = ([], p) := by
  unfold run
  rw [h]
  rfl

/-- A round with progress, then the rest. -/
theorem run_progress {p : Parser V} (hne : p.pending ≠ []) (h : p.step.2.1 = true) :
    p.run = (p.step.1 ++ p.step.2.2.run.1, p.step.2.2.run.2) := by
  have hlt := length_step_lt hne h
  obtain ⟨n, hn⟩ := Nat.exists_eq_succ_of_ne_zero (List.length_pos_iff.2 hne).ne'
  unfold run
  rw [hn]
  have hempty : p.pending.isEmpty = false := by simpa using hne
  conv_lhs => unfold loop
  simp only [hempty, h, if_true, Bool.false_eq_true, if_false]
  rw [loop_fuel (show p.step.2.2.pending.length ≤ n by omega) le_rfl]

/-- A round without progress is the last one. -/
theorem run_stuck {p : Parser V} (hne : p.pending ≠ []) (h : p.step.2.1 = false) :
    p.run = (p.step.1, p.step.2.2) := by
  obtain ⟨n, hn⟩ := Nat.exists_eq_succ_of_ne_zero (List.length_pos_iff.2 hne).ne'
  unfold run
  rw [hn]
  have hempty : p.pending.isEmpty = false := by simpa using hne
  unfold loop
  simp [hempty, h]

/-! ## A think opener after reasoning text -/

omit [Json V] [WordChars] in
/-- Nothing was put out in the open think channel, and its first marker is a second opener behind some text. -/
def opensLate (p : Parser V) : Bool :=
  decide (p.state = .think) && !p.reasoningEmitted &&
    match findFirst p.markers p.pending with
    | some (position, marker) => decide (0 < position) && decide (marker = thinkOpen)
    | none => false

/-- Some round of the loop meets such an opener. -/
def loopLate : ℕ → Parser V → Bool
  | 0, _ => false
  | fuel + 1, p => !p.pending.isEmpty && (p.opensLate || p.step.2.1 && loopLate fuel p.step.2.2)

def runLate (p : Parser V) : Bool := loopLate p.pending.length p

theorem loopLate_fuel {n k : ℕ} {p : Parser V} (hn : p.pending.length ≤ n) (hk : p.pending.length ≤ k) :
    loopLate n p = loopLate k p := by
  induction n generalizing p k with
  | zero =>
    have hnil := List.length_eq_zero_iff.1 (Nat.le_zero.1 hn)
    cases k with
    | zero => rfl
    | succ k => simp [loopLate, hnil]
  | succ n ih =>
    cases k with
    | zero =>
      have hnil := List.length_eq_zero_iff.1 (Nat.le_zero.1 hk)
      simp [loopLate, hnil]
    | succ k =>
      unfold loopLate
      by_cases hne : p.pending = []
      · simp [hne]
      · cases hprogress : p.step.2.1 with
        | false => rfl
        | true =>
          have hlt := length_step_lt hne hprogress
          rw [ih (by omega) (show p.step.2.2.pending.length ≤ k by omega)]

theorem runLate_nil {p : Parser V} (h : p.pending = []) : p.runLate = false := by
  unfold runLate
  rw [h]
  rfl

theorem runLate_step {p : Parser V} (hne : p.pending ≠ []) :
    p.runLate = (p.opensLate || p.step.2.1 && p.step.2.2.runLate) := by
  obtain ⟨n, hn⟩ := Nat.exists_eq_succ_of_ne_zero (List.length_pos_iff.2 hne).ne'
  have hempty : p.pending.isEmpty = false := by simpa using hne
  unfold runLate
  rw [hn]
  conv_lhs => unfold loopLate
  rw [hempty]
  cases hprogress : p.step.2.1 with
  | false => rfl
  | true =>
    have hlt := length_step_lt hne hprogress
    rw [loopLate_fuel (show p.step.2.2.pending.length ≤ n by omega) le_rfl]
    rfl

omit [Json V] [WordChars] in
theorem opensLate_of_state {p : Parser V} (h : p.state ≠ .think) : p.opensLate = false := by
  unfold opensLate
  rw [decide_eq_false h]
  rfl

omit [Json V] [WordChars] in
theorem Plain.opensLate {p : Parser V} (h : p.Plain) : p.opensLate = false := by
  rcases h with h | h
  · exact opensLate_of_state (by rw [h]; decide)
  · unfold Parser.opensLate
    rw [h.2]
    simp

/-! ## One parser continues another -/

/-- Running `p` puts out `d` and then what running `q` puts out, and ends alike. -/
structure Continues (d : List Delta) (p q : Parser V) : Prop where
  output : outputOf p.run.1 = outputOf d ++ outputOf q.run.1
  final : p.run.2 = q.run.2
  late : q.runLate = p.runLate

theorem Continues.refl (p : Parser V) : Continues [] p p := ⟨rfl, rfl, rfl⟩

theorem Continues.of_progress {p : Parser V} (hne : p.pending ≠ []) (h : p.step.2.1 = true)
    (hlate : p.opensLate = false) :
    Continues p.step.1 p p.step.2.2 where
  output := by rw [run_progress hne h, outputOf_append]
  final := by rw [run_progress hne h]
  late := by rw [runLate_step hne, hlate, h]; rfl

/-- Two parsers whose next rounds agree. -/
theorem Continues.of_step_eq {p q : Parser V} (hp : p.pending ≠ []) (hq : q.pending ≠ []) (h : p.step = q.step)
    (hlp : p.opensLate = false) (hlq : q.opensLate = false) : Continues [] p q := by
  have hrun : p.run = q.run := by
    cases hprogress : q.step.2.1 with
    | true => rw [run_progress hp (h ▸ hprogress), run_progress hq hprogress, h]
    | false => rw [run_stuck hp (h ▸ hprogress), run_stuck hq hprogress, h]
  refine ⟨by rw [hrun]; rfl, by rw [hrun], ?_⟩
  rw [runLate_step hp, runLate_step hq, hlp, hlq, h]

/-- Two parsers that run alike, without a late opener. -/
theorem Continues.of_run_eq {p q : Parser V} (h : p.run = q.run) (hlp : p.runLate = false) (hlq : q.runLate = false) :
    Continues [] p q := ⟨by rw [h]; rfl, by rw [h], by rw [hlp, hlq]⟩

/-- Two parsers that are continued by the same one. -/
theorem Continues.cancel {d d' e : List Delta} {p q r : Parser V} (hp : Continues d' p r) (hq : Continues e q r)
    (hd : outputOf d' = outputOf d ++ outputOf e) : Continues d p q where
  output := by rw [hp.output, hq.output, hd, Output.append_assoc]
  final := hp.final.trans hq.final.symm
  late := hq.late.symm.trans hp.late

/-! ## Text that goes on -/

/-- The channel rounds. -/
theorem step_channel {p : Parser V} (h : p.Plain ∨ p.skipsBlank = true ∨ p.state = .think) :
    p.step = p.channelStep := by
  unfold step
  rcases h with (h | h) | h | h
  · rw [h]
  · rw [h.1]
  · unfold skipsBlank at h
    rw [Bool.or_eq_true, decide_eq_true_eq, decide_eq_true_eq] at h
    rcases h with h | h <;> rw [h]
  · rw [h]

/-- Nothing is left to do before more text comes. -/
theorem run_held {p : Parser V} (hstep : p.step = p.channelStep) (hv : Held p.markers p.pending) :
    p.run = ([], p) ∧ p.runLate = false := by
  by_cases hne : p.pending = []
  · exact ⟨run_nil hne, runLate_nil hne⟩
  · have hround : p.step = ([], false, p) := by
      rw [hstep, p.channelStep_held (u := []) rfl trivial hv]
      rfl
    have hlate : p.opensLate = false := by
      have hnone := findFirst_of_held p.markers_apart (u := []) trivial hv
      rw [List.nil_append] at hnone
      unfold opensLate
      rw [hnone, Bool.and_false]
    refine ⟨?_, ?_⟩
    · rw [run_stuck hne (by rw [hround]), hround]
    · rw [runLate_step hne, hlate, hround]
      rfl

/-- Text that is passed on as it is can be passed on in two parts. -/
theorem Plain.continues {p : Parser V} (h : p.Plain) {w z : Text} (hp : p.pending = w ++ z) (hs : Skips p.markers w z) :
    Continues (p.text w).1 p { p with pending := z } := by
  by_cases hw : w = []
  · subst hw
    rw [List.nil_append] at hp
    have heq : ({ p with pending := z } : Parser V) = p := by rw [← hp]
    rw [heq]
    exact .refl p
  · have hq : ({ p with pending := z } : Parser V).Plain := h
    have hne : p.pending ≠ [] := by
      rw [hp]
      exact List.append_ne_nil_of_left_ne_nil hw z
    have hround : p.step = p.channelStep := step_channel (.inl h)
    have hround' : ({ p with pending := z } : Parser V).step = ({ p with pending := z } : Parser V).channelStep :=
      step_channel (.inl hq)
    have htext : ∀ t, ({ p with pending := z }.text t).2 = ({ p with pending := z } : Parser V) := text_eq_of_plain hq
    -- the next marker, if there is one, is in the second part
    rcases cut_cases p.markers_apart z with ⟨x, m, y, hm, rfl, hx, -⟩ | ⟨x, y, rfl, hx, hy, -⟩
    · -- both reach the marker
      have hstep := p.channelStep_found (u := w ++ x) hm (by rw [hp, List.append_assoc])
        (Skips.append_left.2 ⟨hs, hx⟩)
      rw [if_neg (by simp [h.skipsBlank]), text_eq_of_plain h] at hstep
      have hstep' := Parser.channelStep_found { p with pending := x ++ (m ++ y) } hm rfl hx
      rw [if_neg (by simp [hq.skipsBlank]), htext, text_pending] at hstep'
      have hc := Continues.of_progress hne (by rw [hround, hstep]) h.opensLate
      have hc' := Continues.of_progress (p := { p with pending := x ++ (m ++ y) })
        (List.append_ne_nil_of_right_ne_nil _ (List.append_ne_nil_of_left_ne_nil (p.markers_apart m hm).1 y))
        (by rw [hround', hstep']) hq.opensLate
      rw [hround, hstep] at hc
      rw [hround', hstep'] at hc'
      exact hc.cancel hc' (outputOf_text_append h w x)
    · -- both hold back the same end
      have hstep := p.channelStep_held (u := w ++ x) (by rw [hp, List.append_assoc])
        (Skips.append_left.2 ⟨hs, hx⟩) hy
      rw [if_neg (by simp [hw, h.skipsBlank]), text_pending] at hstep
      have hy' : ({ p with pending := y } : Parser V).Plain := h
      rw [text_eq_of_plain hy'] at hstep
      have hc := Continues.of_progress hne (by rw [hround, hstep]) h.opensLate
      rw [hround, hstep] at hc
      by_cases hx₀ : x = []
      · subst hx₀
        rw [List.append_nil] at hc
        exact hc
      · have hstep' := Parser.channelStep_held { p with pending := x ++ y } rfl hx hy
        rw [if_neg (by simp [hx₀, hq.skipsBlank]), text_pending, text_pending, text_eq_of_plain hy'] at hstep'
        have hc' := Continues.of_progress (p := { p with pending := x ++ y })
          (List.append_ne_nil_of_left_ne_nil hx₀ y)
          (by rw [hround', hstep']) hq.opensLate
        rw [hround', hstep'] at hc'
        exact hc.cancel hc' (outputOf_text_append h w x)

omit [Json V] [WordChars] in
theorem response_markers_subset {p : Parser V} (h : p.skipsBlank = true) (z : Text) :
    ({ p with state := .response, pending := z } : Parser V).markers ⊆ p.markers := by
  unfold skipsBlank at h
  rw [Bool.or_eq_true, decide_eq_true_eq, decide_eq_true_eq] at h
  unfold markers transitions
  rcases h with h | h <;> rw [h] <;> simp

omit [Json V] [WordChars] in
theorem text_of_skipsBlank {p : Parser V} (h : p.skipsBlank = true) {t : Text} (ht : isBlank t = false) :
    p.text t = ([.content t], { p with state := .response }) := by
  have hne : t.isEmpty = false := by
    cases t with
    | nil => cases ht
    | cons a t => rfl
  have hthink : p.state ≠ .think := by
    rintro heq
    unfold skipsBlank at h
    rw [heq] at h
    cases h
  unfold text
  rw [hne, if_neg (by decide), if_neg hthink, if_pos h, ht, if_neg (by decide)]

omit [Json V] [WordChars] in
theorem isBlank_append_of_left {u x : Text} (h : isBlank u = false) : isBlank (u ++ x) = false := by
  unfold isBlank at h ⊢
  rw [List.all_append, h, Bool.false_and]

/-- Text outside the channels opens the response: the rest can wait. -/
theorem continues_response {p : Parser V} (h : p.skipsBlank = true) {u z : Text} (hu : isBlank u = false)
    (hp : p.pending = u ++ z) (hs : Skips p.markers u z) :
    Continues [.content u] p { p with state := .response, pending := z } := by
  have hq : ({ p with state := .response, pending := z } : Parser V).Plain := .inl rfl
  have hsub := response_markers_subset h z
  have hu₀ : u ≠ [] := by
    rintro rfl
    cases hu
  have hne : p.pending ≠ [] := by
    rw [hp]
    exact List.append_ne_nil_of_left_ne_nil hu₀ z
  have hround : p.step = p.channelStep := step_channel (.inr (.inl h))
  have hlate : p.opensLate = false := by
    refine opensLate_of_state fun heq => ?_
    unfold skipsBlank at h
    rw [heq] at h
    cases h
  have hout : ∀ x, outputOf [.content (u ++ x)] = outputOf [.content u] ++
      outputOf (({ p with state := .response, pending := z } : Parser V).text x).1 := by
    intro x
    unfold text
    cases x with
    | nil => simp [outputOf, Output.append_def]
    | cons a x => simp [outputOf, Output.append_def, skipsBlank]
  rcases cut_cases p.markers_apart z with ⟨x, m, y, hm, rfl, hx, -⟩ | ⟨x, y, rfl, hx, hy, -⟩
  · have hux := isBlank_append_of_left (x := x) hu
    have hstep := p.channelStep_found (u := u ++ x) hm (by rw [hp, List.append_assoc])
      (Skips.append_left.2 ⟨hs, hx⟩)
    rw [if_pos (by rw [h, hux]; rfl), text_of_skipsBlank (p := { p with pending := m ++ y }) h hux] at hstep
    have hc := Continues.of_progress hne (by rw [hround, hstep]) hlate
    rw [hround, hstep] at hc
    exact hc.cancel (hq.continues rfl (hx.mono hsub)) (hout x)
  · have hux := isBlank_append_of_left (x := x) hu
    have hstep := p.channelStep_held (u := u ++ x) (by rw [hp, List.append_assoc]) (Skips.append_left.2 ⟨hs, hx⟩) hy
    rw [if_neg (by simp [hu₀, hux]), text_of_skipsBlank (p := { p with pending := y }) h hux] at hstep
    have hc := Continues.of_progress hne (by rw [hround, hstep]) hlate
    rw [hround, hstep] at hc
    exact hc.cancel (hq.continues rfl (hx.mono hsub)) (hout x)

/-! ### The first text of the think channel -/

section think

variable {p : Parser V} (hthink : p.state = .think) (hemitted : p.reasoningEmitted = false)
include hthink hemitted

omit [Json V] [WordChars] in
/-- Once reasoning is put out, the opener is the one marker that is no longer known. -/
theorem think_transitions (z : Text) : p.transitions =
    ({ p with reasoningEmitted := true, pending := z } : Parser V).transitions ++ [(thinkOpen, .think)] := by
  unfold transitions
  rw [hthink, hemitted]
  rfl

omit [Json V] [WordChars] in
theorem think_markers (z : Text) : p.markers =
    ({ p with reasoningEmitted := true, pending := z } : Parser V).markers ++ [thinkOpen] := by
  unfold markers
  rw [think_transitions hthink hemitted z, List.map_append]
  rfl

omit [Json V] [WordChars] hemitted in
theorem text_of_think {t : Text} (ht : t ≠ []) :
    p.text t = ([.reasoning t], { p with reasoningEmitted := true }) := by
  unfold text
  rw [if_neg (by simpa using ht), if_pos hthink]

theorem continues_think {u z : Text} (hu : u ≠ []) (hp : p.pending = u ++ z) (hs : Skips p.markers u z)
    (hlate : p.opensLate = false) :
    Continues [.reasoning u] p { p with reasoningEmitted := true, pending := z } := by
  have hq : ({ p with reasoningEmitted := true, pending := z } : Parser V).Plain := .inr ⟨hthink, rfl⟩
  have hsub : ({ p with reasoningEmitted := true, pending := z } : Parser V).markers ⊆ p.markers := by
    rw [think_markers hthink hemitted z]
    exact List.subset_append_left _ _
  have hne : p.pending ≠ [] := by
    rw [hp]
    exact List.append_ne_nil_of_left_ne_nil hu z
  have hround : p.step = p.channelStep := step_channel (.inr (.inr hthink))
  have hskip : p.skipsBlank = false := by
    unfold skipsBlank
    rw [hthink]
    rfl
  have hout : ∀ x, outputOf [.reasoning (u ++ x)] = outputOf [.reasoning u] ++
      outputOf (({ p with reasoningEmitted := true, pending := z } : Parser V).text x).1 := by
    intro x
    unfold text
    cases x with
    | nil => simp [outputOf, Output.append_def]
    | cons a x => simp [outputOf, Output.append_def, hthink]
  have hux : ∀ x, u ++ x ≠ [] := fun x => List.append_ne_nil_of_left_ne_nil hu x
  rcases cut_cases p.markers_apart z with ⟨x, m, y, hm, rfl, hx, -⟩ | ⟨x, y, rfl, hx, hy, -⟩
  · have hpend : p.pending = (u ++ x) ++ (m ++ y) := by rw [hp, List.append_assoc]
    have hskips : Skips p.markers (u ++ x) (m ++ y) := Skips.append_left.2 ⟨hs, hx⟩
    -- the marker is no late opener, so it is still known after the text
    have hnot : m ≠ thinkOpen := by
      rintro rfl
      have hpos := List.length_pos_iff.2 (hux x)
      unfold opensLate at hlate
      rw [hthink, hemitted, hpend, findFirst_of_skips p.markers_apart hm hskips] at hlate
      simp [hu] at hlate
    have hm' : m ∈ ({ p with reasoningEmitted := true, pending := x ++ (m ++ y) } : Parser V).markers := by
      rw [think_markers hthink hemitted (x ++ (m ++ y)), List.mem_append, List.mem_singleton] at hm
      exact hm.resolve_right hnot
    have htarget : dictGet p.transitions m =
        dictGet ({ p with reasoningEmitted := true, pending := x ++ (m ++ y) } : Parser V).transitions m := by
      unfold dictGet
      rw [think_transitions hthink hemitted (x ++ (m ++ y)), List.find?_append]
      simp [hnot.symm]
    have hstep := p.channelStep_found hm hpend hskips
    rw [if_neg (by simp [hskip]), text_of_think hthink (hux x), htarget] at hstep
    have hstep' := Parser.channelStep_found { p with reasoningEmitted := true, pending := x ++ (m ++ y) } hm' rfl
      (hx.mono hsub)
    rw [if_neg (by simp [hq.skipsBlank]), text_eq_of_plain hq] at hstep'
    have hround' : ({ p with reasoningEmitted := true, pending := x ++ (m ++ y) } : Parser V).step = _ :=
      (step_channel (.inl hq)).trans hstep'
    have hc := Continues.of_progress hne (by rw [hround, hstep]) hlate
    have hc' := Continues.of_progress (p := { p with reasoningEmitted := true, pending := x ++ (m ++ y) })
      (List.append_ne_nil_of_right_ne_nil _ (List.append_ne_nil_of_left_ne_nil (p.markers_apart m hm).1 y))
      (by rw [hround']) hq.opensLate
    rw [hround, hstep] at hc
    rw [hround'] at hc'
    exact hc.cancel hc' (hout x)
  · have hstep := p.channelStep_held (u := u ++ x) (by rw [hp, List.append_assoc])
      (Skips.append_left.2 ⟨hs, hx⟩) hy
    rw [if_neg (by simp [hu, hskip]), text_of_think (p := { p with pending := y }) hthink (hux x)] at hstep
    have hc := Continues.of_progress hne (by rw [hround, hstep]) hlate
    rw [hround, hstep] at hc
    exact hc.cancel (hq.continues rfl (hx.mono hsub)) (hout x)

end think

/-! ## Rounds inside the tools channel -/

theorem step_argument {p : Parser V} (h : p.state = .argument) : p.step = p.argumentStep := by
  unfold step
  rw [h]

theorem step_container {p : Parser V} (h : p.state = .tools ∨ p.state = .call) : p.step = p.containerStep := by
  unfold step
  rcases h with h | h <;> rw [h]

theorem argument_run_held {p : Parser V} (h : p.state = .argument) {u v : Text} (hp : p.pending = u ++ v)
    (hs : Skips [argumentClose] u v) (hv : Held [argumentClose] v) :
    p.run = ([], { p with argumentText := p.argumentText ++ u, pending := v }) ∧ p.runLate = false := by
  have hround := step_argument h
  have hstep := p.argumentStep_held hp hs hv
  have hlate : p.opensLate = false := opensLate_of_state (by rw [h]; decide)
  by_cases hne : p.pending = []
  · obtain ⟨rfl, rfl⟩ := List.append_eq_nil_iff.1 (hp.symm.trans hne)
    refine ⟨?_, runLate_nil hne⟩
    rw [run_nil hne, List.append_nil, ← hne]
  · cases hu : u.isEmpty with
    | true =>
      rw [List.isEmpty_iff] at hu
      subst hu
      have hprogress : p.step.2.1 = false := by rw [hround, hstep]; rfl
      rw [run_stuck hne hprogress, runLate_step hne, hlate, hprogress, hround, hstep]
      exact ⟨rfl, rfl⟩
    | false =>
      have hprogress : p.step.2.1 = true := by rw [hround, hstep, hu]; rfl
      have hnext : ({ p with argumentText := p.argumentText ++ u, pending := v } : Parser V).run =
          ([], { p with argumentText := p.argumentText ++ u, pending := v }) ∧
          ({ p with argumentText := p.argumentText ++ u, pending := v } : Parser V).runLate = false := by
        by_cases hv₀ : v = []
        · exact ⟨run_nil hv₀, runLate_nil hv₀⟩
        · have hstep' := Parser.argumentStep_held
            { p with argumentText := p.argumentText ++ u, pending := v } (u := []) rfl
            trivial hv
          have hround' : ({ p with argumentText := p.argumentText ++ u, pending := v } : Parser V).step =
              ([], false, { p with argumentText := p.argumentText ++ u, pending := v }) := by
            have harg : ({ p with argumentText := p.argumentText ++ u, pending := v } : Parser V).state = .argument := h
            refine (step_argument harg).trans (hstep'.trans ?_)
            rw [List.append_nil]
            rfl
          have hlate' : ({ p with argumentText := p.argumentText ++ u, pending := v } : Parser V).opensLate = false :=
            opensLate_of_state (by rw [h]; decide)
          rw [run_stuck hv₀ (by rw [hround']), runLate_step hv₀, hlate', hround']
          exact ⟨rfl, rfl⟩
      rw [run_progress hne hprogress, runLate_step hne, hlate, hprogress, hround, hstep, hnext.1, hnext.2]
      exact ⟨rfl, rfl⟩

theorem container_run_held {p : Parser V} (h : p.state = .tools ∨ p.state = .call) {u v : Text}
    (hp : p.pending = u ++ v)
    (hs : Skips tagMarkers u v) (hv : Held tagMarkers v) :
      p.run = ([], { p with pending := v }) ∧ p.runLate = false := by
  have hround : p.step = ([], false, { p with pending := v }) := by
    rw [step_container h, p.containerStep_held hp hs hv]
  have hlate : p.opensLate = false := opensLate_of_state (by rcases h with h | h <;> rw [h] <;> decide)
  by_cases hne : p.pending = []
  · obtain ⟨rfl, rfl⟩ := List.append_eq_nil_iff.1 (hp.symm.trans hne)
    refine ⟨?_, runLate_nil hne⟩
    rw [run_nil hne, ← hne]
  · rw [run_stuck hne (by rw [hround]), runLate_step hne, hlate, hround]
    exact ⟨rfl, rfl⟩

theorem done_run {p : Parser V} (h : p.state = .done) :
    p.run = ([], { p with pending := [] }) ∧ p.runLate = false := by
  have hround : p.step = ([], false, { p with pending := [] }) := by
    unfold step
    rw [h]
  have hlate : p.opensLate = false := opensLate_of_state (by rw [h]; decide)
  by_cases hne : p.pending = []
  · refine ⟨?_, runLate_nil hne⟩
    rw [run_nil hne, ← hne]
  · rw [run_stuck hne (by rw [hround]), runLate_step hne, hlate, hround]
    exact ⟨rfl, rfl⟩

theorem tag_pending (p : Parser V) (z marker name raw : Text) : { p with pending := z }.tag marker name raw =
    ((p.tag marker name raw).1, { (p.tag marker name raw).2 with pending := z }) := by
  unfold tag
  dsimp only
  repeat' split
  all_goals rfl

/-- A tag round does not look beyond its separator. -/
theorem tagRound_append (p : Parser V) {m v : Text} {size : ℕ} (hm : m ≠ endOfMessage)
    (hsep : find sepTag v = some size)
    (b : Text) : (p.tagRound m (v ++ b)) = ((p.tagRound m v).1, true, (p.tagRound m v).2.2.append b) := by
  obtain ⟨hsep', hlen⟩ := find_append hsep b
  have htake : (v ++ b).take size = v.take size := List.take_append_of_le_length (by omega)
  have hdrop : (v ++ b).drop (size + sepTag.length) = v.drop (size + sepTag.length) ++ b :=
    List.drop_append_of_le_length (by omega)
  unfold tagRound
  rw [if_neg hm, if_neg hm, hsep, hsep']
  dsimp only
  rw [htake, hdrop]
  cases splitWord (strip (v.take size)) with
  | none => rfl
  | some r =>
    obtain ⟨name, raw⟩ := r
    dsimp only
    rw [tag_pending p (v.drop (size + sepTag.length) ++ b), tag_pending p (v.drop (size + sepTag.length))]
    rfl

/-! ## More text after a round -/

section append

variable {p : Parser V} (b : Text)

omit [Json V] [WordChars] in
theorem append_pending (p : Parser V) : (p.append b).pending = p.pending ++ b := rfl

omit [Json V] [WordChars] in
theorem append_ne_nil (hne : p.pending ≠ []) : (p.append b).pending ≠ [] := List.append_ne_nil_of_left_ne_nil hne b

theorem argument_append (h : p.state = .argument) (hne : p.pending ≠ []) :
    Continues p.step.1 (p.append b) (p.step.2.2.append b) := by
  have hlate : ∀ q : Parser V, q.state = .argument → q.opensLate = false := fun q hq =>
    opensLate_of_state (by rw [hq]; decide)
  have happ : (p.append b).state = .argument := h
  rw [step_argument h]
  -- either the closing tag is complete before the chunk comes, or a part of it may be held back
  rcases cut_cases argumentClose_apart p.pending with ⟨u, m, v, hm, hp, hs, -⟩ | ⟨u, v, hp, hs, hv, -⟩
  · obtain rfl := List.mem_singleton.1 hm
    have hp' : (p.append b).pending = u ++ (argumentClose ++ (v ++ b)) := by
      rw [append_pending, hp, List.append_assoc, List.append_assoc]
    have hstep := (p.append b).argumentStep_found hp' (by rw [← List.append_assoc]; exact hs.append b)
    have hc := Continues.of_progress (append_ne_nil b hne) (by rw [step_argument happ, hstep]) (hlate _ happ)
    rw [step_argument happ, hstep] at hc
    rw [p.argumentStep_found hp hs]
    exact hc
  · rw [p.argumentStep_held hp hs hv]
    have hp' : (p.append b).pending = u ++ (v ++ b) := by rw [append_pending, hp, List.append_assoc]
    have hs' := hs.append b
    have hq : (({ p with argumentText := p.argumentText ++ u, pending := v } : Parser V).append b).state =
      .argument := h
    rcases cut_cases argumentClose_apart (v ++ b) with ⟨x, m, y, hm, hcut, hx, -⟩ | ⟨x, y, hcut, hx, hy, -⟩
    · obtain rfl := List.mem_singleton.1 hm
      rw [hcut] at hp' hs'
      have hstep := (p.append b).argumentStep_found (u := u ++ x) (by rw [hp', List.append_assoc])
        (Skips.append_left.2 ⟨hs', hx⟩)
      have hstep' :=
        (({ p with argumentText := p.argumentText ++ u, pending := v } : Parser V).append b).argumentStep_found
        hcut hx
      refine .of_step_eq (append_ne_nil b hne) ?_ ?_ (hlate _ happ) (hlate _ hq)
      · rw [append_pending, hcut]
        exact List.append_ne_nil_of_right_ne_nil _ (List.append_ne_nil_of_left_ne_nil (by decide) y)
      · rw [step_argument happ, step_argument hq, hstep, hstep']
        simp only [append, argumentValue, List.append_assoc]
        rfl
    · rw [hcut] at hp' hs'
      have hrun := argument_run_held happ (u := u ++ x) (by rw [hp', List.append_assoc])
        (Skips.append_left.2 ⟨hs', hx⟩) hy
      have hrun' := argument_run_held hq hcut hx hy
      refine .of_run_eq ?_ hrun.2 hrun'.2
      rw [hrun.1, hrun'.1]
      simp only [append, List.append_assoc]

theorem container_append (h : p.state = .tools ∨ p.state = .call) (hne : p.pending ≠ []) :
    Continues p.step.1 (p.append b) (p.step.2.2.append b) := by
  have hlate : ∀ q : Parser V, q.state = p.state → q.opensLate = false := fun q hq =>
    opensLate_of_state (by rw [hq]; rcases h with h | h <;> rw [h] <;> decide)
  have happ : (p.append b).state = .tools ∨ (p.append b).state = .call := h
  rw [step_container h]
  rcases cut_cases tagMarkers_apart p.pending with ⟨u, m, v, hm, hp, hs, -⟩ | ⟨u, v, hp, hs, hv, -⟩
  · have hp' : (p.append b).pending = u ++ (m ++ (v ++ b)) := by
      rw [append_pending, hp, List.append_assoc, List.append_assoc]
    have hstep : (p.append b).step = p.tagRound m (v ++ b) := by
      rw [step_container happ, (p.append b).containerStep_found hm hp'
        (by rw [← List.append_assoc]; exact hs.append b)]
      unfold tagRound append
      rfl
    rw [p.containerStep_found hm hp hs]
    by_cases hend : m = endOfMessage
    · -- the message ends whatever follows
      have hround : ∀ w, p.tagRound m w = ([], true, { p with state := .done, pending := [] }) := fun w => if_pos hend
      have hc := Continues.of_progress (append_ne_nil b hne) (by rw [hstep, hround]) (hlate (p.append b) rfl)
      rw [hstep, hround] at hc
      rw [hround]
      obtain ⟨hrun, hl⟩ := done_run (p := ({ p with state := .done, pending := [] } : Parser V).append b) rfl
      obtain ⟨hrun', hl'⟩ := done_run (p := ({ p with state := .done, pending := [] } : Parser V)) rfl
      exact hc.cancel (Continues.of_run_eq (by rw [hrun, hrun']; rfl) hl hl') rfl
    · cases hsep : find sepTag v with
      | none =>
        have hround : p.tagRound m v = ([], false, { p with pending := m ++ v }) := by
          unfold tagRound
          rw [if_neg hend, hsep]
        rw [hround]
        refine .of_step_eq (append_ne_nil b hne) (append_ne_nil b ?_) ?_ (hlate (p.append b) rfl) (hlate _ rfl)
        · exact List.append_ne_nil_of_left_ne_nil (tagMarkers_apart m hm).1 v
        · have happ' : (({ p with pending := m ++ v } : Parser V).append b).state = .tools ∨
              (({ p with pending := m ++ v } : Parser V).append b).state = .call := h
          have hfound := (({ p with pending := m ++ v } : Parser V).append b).containerStep_found (u := []) hm
            (show m ++ v ++ b = [] ++ (m ++ (v ++ b)) by rw [List.append_assoc]; rfl) trivial
          rw [hstep, step_container happ', hfound]
          unfold tagRound append
          rfl
      | some size =>
        have hround := p.tagRound_append hend hsep b
        have hc := Continues.of_progress (append_ne_nil b hne) (by rw [hstep, hround]) (hlate (p.append b) rfl)
        rw [hstep, hround] at hc
        exact hc
  -- no complete tag yet: what was held back and the chunk are read together
  · rw [p.containerStep_held hp hs hv]
    have hp' : (p.append b).pending = u ++ (v ++ b) := by rw [append_pending, hp, List.append_assoc]
    have hs' := hs.append b
    have happ' : (({ p with pending := v } : Parser V).append b).state = .tools ∨
        (({ p with pending := v } : Parser V).append b).state = .call := h
    rcases cut_cases tagMarkers_apart (v ++ b) with ⟨x, m, y, hm, hcut, hx, -⟩ | ⟨x, y, hcut, hx, hy, -⟩
    · rw [hcut] at hp' hs'
      have hstep := (p.append b).containerStep_found (u := u ++ x) hm (by rw [hp', List.append_assoc])
        (Skips.append_left.2 ⟨hs', hx⟩)
      have hstep' := (({ p with pending := v } : Parser V).append b).containerStep_found hm hcut hx
      refine .of_step_eq (append_ne_nil b hne) ?_ ?_ (hlate (p.append b) rfl) (hlate _ rfl)
      · rw [append_pending, hcut]
        exact List.append_ne_nil_of_right_ne_nil _ (List.append_ne_nil_of_left_ne_nil (tagMarkers_apart m hm).1 y)
      · rw [step_container happ, step_container happ', hstep, hstep']
        unfold tagRound append
        rfl
    · rw [hcut] at hp' hs'
      have hrun := container_run_held happ (u := u ++ x) (by rw [hp', List.append_assoc])
        (Skips.append_left.2 ⟨hs', hx⟩) hy
      have hrun' := container_run_held happ' hcut hx hy
      refine .of_run_eq ?_ hrun.2 hrun'.2
      rw [hrun.1, hrun'.1]
      rfl

omit [Json V] [WordChars] in
theorem text_with (p : Parser V) (z t : Text) :
    { p with pending := z }.text t = ((p.text t).1, { (p.text t).2 with pending := z }) := by
  unfold text skipsBlank
  dsimp only
  repeat' split
  all_goals rfl

omit [Json V] [WordChars] in
/-- A round that finds a marker is the same when more text follows. -/
theorem channelStep_append {u m v : Text} (hm : m ∈ p.markers) (hp : p.pending = u ++ (m ++ v))
    (hs : Skips p.markers u (m ++ v)) :
    (p.append b).channelStep = (p.channelStep.1, true, p.channelStep.2.2.append b) := by
  have hp' : (p.append b).pending = u ++ (m ++ (v ++ b)) := by
    rw [append_pending, hp, List.append_assoc, List.append_assoc]
  have hstep := (p.append b).channelStep_found hm hp' (by rw [← List.append_assoc]; exact hs.append b)
  rw [hstep, p.channelStep_found hm hp hs]
  have hskip : (p.append b).skipsBlank = p.skipsBlank := rfl
  have htrans : (p.append b).transitions = p.transitions := rfl
  rw [hskip, htrans]
  have htext : ∀ z, ({ p.append b with pending := z } : Parser V).text u =
    ((p.text u).1, { (p.text u).2 with pending := z }) :=
    fun z => text_with p z u
  have hsame : (p.append b).text u = ((p.text u).1, { (p.text u).2 with pending := p.pending ++ b }) :=
    text_with p (p.pending ++ b) u
  split
  · rw [htext, text_with p (m ++ v) u]
    unfold append
    rw [List.append_assoc]
  · rw [hsame]
    rfl

theorem channel_append (h : p.skipsBlank = true ∨ p.state = .think ∨ p.state = .response) (hne : p.pending ≠ [])
    (hlate : (p.append b).opensLate = false) : Continues p.step.1 (p.append b) (p.step.2.2.append b) := by
  have hround : ∀ q : Parser V, q.state = p.state → q.step = q.channelStep := by
    intro q hq
    refine step_channel ?_
    rcases h with h | h | h
    · refine .inr (.inl ?_)
      unfold skipsBlank at h ⊢
      rwa [hq]
    · exact .inr (.inr (hq.trans h))
    · exact .inl (.inl (hq.trans h))
  rw [hround p rfl]
  rcases cut_cases p.markers_apart p.pending with ⟨u, m, v, hm, hp, hs, -⟩ | ⟨u, v, hp, hs, hv, -⟩
  · have hstep := channelStep_append b hm hp hs
    have hc := Continues.of_progress (append_ne_nil b hne) (by rw [hround (p.append b) rfl, hstep]) hlate
    rw [hround (p.append b) rfl, hstep] at hc
    exact hc
  · have hp' : (p.append b).pending = u ++ (v ++ b) := by rw [append_pending, hp, List.append_assoc]
    have hs' : Skips (p.append b).markers u (v ++ b) := hs.append b
    rw [p.channelStep_held hp hs hv]
    split
    case isTrue => exact .refl _
    case isFalse hgo =>
      rw [Bool.or_eq_true, Bool.and_eq_true, not_or, not_and] at hgo
      have hu : u ≠ [] := by simpa using hgo.1
      -- a round without a marker put out text: the opener of a response, or plain text
      by_cases hskip : p.skipsBlank = true
      · have hblank : isBlank u = false := by simpa using hgo.2 hskip
        rw [text_of_skipsBlank (p := { p with pending := v }) hskip hblank]
        exact continues_response (p := p.append b) hskip hblank hp' hs'
      · by_cases hplain : p.Plain
        · rw [text_eq_of_plain (p := { p with pending := v }) hplain, text_pending]
          have := Plain.continues (p := p.append b) hplain hp' hs'
          unfold append at this
          rw [text_pending] at this
          exact this
        · have hthink : p.state = .think := (h.resolve_left hskip).resolve_right fun hr => hplain (.inl hr)
          have hemitted : p.reasoningEmitted = false := by
            rw [← Bool.not_eq_true]
            exact fun he => hplain (.inr ⟨hthink, he⟩)
          rw [text_of_think (p := { p with pending := v }) hthink hu]
          exact continues_think (p := p.append b) hthink hemitted hu hp' hs' hlate

/-- **A round does not depend on the text that follows**, unless that text brings a late opener. -/
theorem step_append (hne : p.pending ≠ []) (hlate : (p.append b).opensLate = false) :
    Continues p.step.1 (p.append b) (p.step.2.2.append b) := by
  cases hstate : p.state with
  | done =>
    have hstep : p.step = ([], false, { p with pending := [] }) := by
      unfold step
      rw [hstate]
    obtain ⟨hrun, hl⟩ := done_run (p := p.append b) hstate
    obtain ⟨hrun', hl'⟩ := done_run (p := ({ p with pending := [] } : Parser V).append b) hstate
    rw [hstep]
    exact Continues.of_run_eq (by rw [hrun, hrun']; rfl) hl hl'
  | argument => exact argument_append b hstate hne
  | tools => exact container_append b (.inl hstate) hne
  | call => exact container_append b (.inr hstate) hne
  | think => exact channel_append b (.inr (.inl hstate)) hne hlate
  | response => exact channel_append b (.inr (.inr hstate)) hne hlate
  | start => exact channel_append b (.inl (by unfold skipsBlank; rw [hstate]; rfl)) hne hlate
  | between => exact channel_append b (.inl (by unfold skipsBlank; rw [hstate]; rfl)) hne hlate

end append

/-! ## Feeding in parts -/

theorem opensLate_of_runLate {p : Parser V} (hne : p.pending ≠ []) (h : p.runLate = false) : p.opensLate = false := by
  rw [runLate_step hne, Bool.or_eq_false_iff] at h
  exact h.1

omit [Json V] [WordChars] in
theorem opensLate_append {p : Parser V} (b : Text) (h : p.opensLate = true) : (p.append b).opensLate = true := by
  rcases cut_cases p.markers_apart p.pending with ⟨u, m, v, hm, hp, hs, hfind⟩ | ⟨u, v, hp, hs, hv, hfind, -⟩
  · have hfind' : findFirst (p.append b).markers (p.append b).pending = some (u.length, m) := by
      rw [append_pending, hp, List.append_assoc, List.append_assoc]
      refine findFirst_of_skips p.markers_apart hm ?_
      rw [← List.append_assoc]
      exact hs.append b
    unfold opensLate at h ⊢
    rw [hfind]  at h
    rw [hfind']
    exact h
  · unfold opensLate at h
    rw [hfind, Bool.and_false] at h
    cases h

/-- A late opener in the first part of a text is one of the whole text. -/
theorem runLate_of_append {p : Parser V} (b : Text) (h : (p.append b).runLate = false) : p.runLate = false := by
  induction hn : p.pending.length using Nat.strong_induction_on generalizing p with
  | _ n ih =>
    by_cases hne : p.pending = []
    · exact runLate_nil hne
    · have hlate := opensLate_of_runLate (append_ne_nil b hne) h
      have hc := step_append b hne hlate
      have hfirst : p.opensLate = false := by
        rw [← Bool.not_eq_true]
        intro htrue
        rw [opensLate_append b htrue] at hlate
        cases hlate
      rw [runLate_step hne, hfirst, Bool.false_or]
      cases hprogress : p.step.2.1 with
      | false => rfl
      | true => exact ih _ (hn ▸ length_step_lt hne hprogress) (hc.late.trans h) rfl

/-- **Running on a longer text is running on its first part and then on the rest.** -/
theorem run_append {p : Parser V} (b : Text) (hlate : (p.append b).runLate = false) :
    Continues p.run.1 (p.append b) (p.run.2.append b) := by
  induction hn : p.pending.length using Nat.strong_induction_on generalizing p with
  | _ n ih =>
    by_cases hne : p.pending = []
    · rw [run_nil hne]
      exact .refl _
    · have hc := step_append b hne (opensLate_of_runLate (append_ne_nil b hne) hlate)
      cases hprogress : p.step.2.1 with
      | false =>
        rw [run_stuck hne hprogress]
        exact hc
      | true =>
        have hlt := length_step_lt hne hprogress
        have hrest := ih _ (hn ▸ hlt) (hc.late.trans hlate) rfl
        rw [run_progress hne hprogress]
        refine ⟨?_, hc.final.trans hrest.final, hrest.late.trans hc.late⟩
        rw [hc.output, hrest.output, outputOf_append, Output.append_assoc]

/-- Nothing is left to do before more text comes. -/
def Quiet (p : Parser V) : Prop := outputOf p.run.1 = outputOf [] ∧ p.run.2 = p

theorem quiet_run {p : Parser V} (hlate : p.runLate = false) : p.run.2.Quiet := by
  have happ : ∀ q : Parser V, q.append [] = q := fun q => by
    unfold append
    rw [List.append_nil]
  have hc := run_append (p := p) [] (by rw [happ]; exact hlate)
  rw [happ, happ] at hc
  refine ⟨?_, hc.final.symm⟩
  have hout := hc.output
  generalize outputOf p.run.1 = o at hout
  generalize outputOf p.run.2.run.1 = o' at hout ⊢
  obtain ⟨reasoning, content, calls⟩ := o'
  have h₁ : o.reasoning ++ reasoning = o.reasoning := (congrArg Output.reasoning hout).symm
  have h₂ : o.content ++ content = o.content := (congrArg Output.content hout).symm
  have h₃ : o.calls ++ calls = o.calls := (congrArg Output.calls hout).symm
  rw [List.append_right_eq_self] at h₁ h₂ h₃
  rw [h₁, h₂, h₃]
  rfl

/-- **Chunks are fed like their joined text** when no late opener comes up. -/
theorem feedAll_eq (chunks : List Text) {p : Parser V} (hquiet : p.Quiet)
    (hlate : (p.append chunks.flatten).runLate = false) :
    outputOf (feedAll chunks p).1 = outputOf (p.feed chunks.flatten).1 ∧
      (feedAll chunks p).2 = (p.feed chunks.flatten).2 := by
  induction chunks generalizing p with
  | nil =>
    unfold feed append
    rw [List.flatten_nil, List.append_nil]
    exact ⟨hquiet.1.symm, hquiet.2.symm⟩
  | cons chunk chunks ih =>
    have happ : p.append (chunk :: chunks).flatten = (p.append chunk).append chunks.flatten := by
      unfold append
      rw [List.flatten_cons, List.append_assoc]
    rw [happ] at hlate
    have hc := run_append chunks.flatten hlate
    have hfirst := runLate_of_append _ hlate
    obtain ⟨hout, hfinal⟩ := ih (quiet_run hfirst) (hc.late.trans hlate)
    unfold feed at hout hfinal ⊢
    unfold feedAll feed
    rw [happ]
    refine ⟨?_, hfinal.trans hc.final.symm⟩
    rw [outputOf_append, hout, hc.output]

/-! ## A late opener is found by cutting the text -/

/-- The round takes `c` off the text, whatever follows. -/
def Takes (p : Parser V) (c : Text) : Prop :=
  ({ p with pending := c } : Parser V).step.2.2.pending = [] ∧
    ∀ z, ({ p with pending := c ++ z } : Parser V).step = (({ p with pending := c } : Parser V).step.1, true,
      ({ p with pending := c } : Parser V).step.2.2.append z)

omit [Json V] [WordChars] in
/-- A text that begins with a channel marker is not cut inside of it. -/
theorem marker_prefix_of_found {u m m' v : Text} (hm : m ∈ channelMarkers) (hm' : m' ∈ channelMarkers)
    (hp : m' <+: u ++ (m ++ v)) : m' <+: u ++ m := by
  have hpre : u ++ m <+: u ++ (m ++ v) := by
    rw [← List.append_assoc]
    exact List.prefix_append _ v
  rcases List.prefix_or_prefix_of_prefix hp hpre with h | ⟨rest, rfl⟩
  · exact h
  · cases u with
    | nil =>
      have heq := ((channelMarkers_apart m hm).2 _ hm').1 (List.prefix_append m rest)
      rw [List.nil_append, List.self_eq_append_right] at heq
      rw [heq, List.append_nil]
    | cons a u =>
      have hpos := List.length_pos_iff.2 (channelMarkers_apart m hm).1
      have hdead := ((channelMarkers_apart m hm).2 _ hm').2 (a :: u).length
        (by simp only [List.length_append, List.length_cons]; omega) (by simp) m (List.mem_singleton.2 rfl)
      rw [List.append_assoc, List.drop_left] at hdead
      exact absurd (List.prefix_append m rest) hdead.1

/-- Where no marker is left, no late opener comes. -/
theorem Plain.runLate_of_none {p : Parser V} (h : p.Plain) (hnone : findFirst p.markers p.pending = none) :
    p.runLate = false := by
  rcases cut_cases p.markers_apart p.pending with ⟨u, m, v, hm, hp, hs, hfind⟩ | ⟨u, v, hp, hs, hv, -⟩
  · rw [hnone] at hfind
    cases hfind
  · rw [← (h.continues hp hs).late]
    have hq : ({ p with pending := v } : Parser V).Plain := h
    exact (run_held (step_channel (.inl hq)) hv).2

section late

variable {p : Parser V} (hlate : p.step.2.2.runLate = true)
include hlate

theorem argument_takes (h : p.state = .argument) : ∃ c z, p.pending = c ++ z ∧ Takes p c := by
  rcases cut_cases argumentClose_apart p.pending with ⟨u, m, v, hm, hp, hs, -⟩ | ⟨u, v, hp, hs, hv, -⟩
  · obtain rfl := List.mem_singleton.1 hm
    have hstep : ∀ z, ({ p with pending := (u ++ argumentClose) ++ z } : Parser V).step =
        ({ p with pending := (u ++ argumentClose) ++ z } : Parser V).argumentStep := fun z => step_argument h
    have hfound := fun z => Parser.argumentStep_found { p with pending := (u ++ argumentClose) ++ z }
      (List.append_assoc u argumentClose z) (hs.swap argumentClose_apart List.mem_cons_self z)
    have hnil := (hstep []).trans (hfound [])
    rw [List.append_nil] at hnil
    refine ⟨u ++ argumentClose, v, by rw [hp, List.append_assoc], ?_, fun z => ?_⟩
    · rw [hnil]
    · rw [hnil, hstep z, hfound z]
      rfl
  · rw [step_argument h, p.argumentStep_held hp hs hv] at hlate
    have hnext := argument_run_held (p := { p with argumentText := p.argumentText ++ u, pending := v }) h (u := []) rfl
      trivial hv
    rw [hnext.2] at hlate
    cases hlate

theorem container_takes (h : p.state = .tools ∨ p.state = .call) (hprogress : p.step.2.1 = true) :
    ∃ c z, p.pending = c ++ z ∧ Takes p c := by
  rw [step_container h] at hlate hprogress
  rcases cut_cases tagMarkers_apart p.pending with ⟨u, m, v, hm, hp, hs, -⟩ | ⟨u, v, hp, hs, hv, -⟩
  · rw [p.containerStep_found hm hp hs] at hlate hprogress
    by_cases hend : m = endOfMessage
    · have hround : p.tagRound m v = ([], true, { p with state := .done, pending := [] }) := if_pos hend
      rw [hround, (done_run rfl).2] at hlate
      cases hlate
    · cases hsep : find sepTag v with
      | none =>
        have hround : p.tagRound m v = ([], false, { p with pending := m ++ v }) := by
          unfold tagRound
          rw [if_neg hend, hsep]
        rw [hround] at hprogress
        cases hprogress
      | some size =>
        -- the tag ends with its separator
        have hsep' := find_take hsep
        have hstep : ∀ z, ({ p with pending := (u ++ (m ++ v.take (size + sepTag.length))) ++ z } : Parser V).step =
            p.tagRound m (v.take (size + sepTag.length) ++ z) := by
          intro z
          have hz : (u ++ (m ++ v.take (size + sepTag.length))) ++ z =
              u ++ (m ++ (v.take (size + sepTag.length) ++ z)) := by
            rw [List.append_assoc, List.append_assoc]
          have hcont :
            ({ p with pending := (u ++ (m ++ v.take (size + sepTag.length))) ++ z } : Parser V).state = .tools ∨
              ({ p with pending := (u ++ (m ++ v.take (size + sepTag.length))) ++ z } : Parser V).state = .call := h
          rw [step_container hcont, Parser.containerStep_found
            { p with pending := (u ++ (m ++ v.take (size + sepTag.length))) ++ z } hm hz
              (hs.swap tagMarkers_apart hm _)]
          unfold tagRound
          rfl
        have hnil := hstep []
        rw [List.append_nil, List.append_nil] at hnil
        refine ⟨u ++ (m ++ v.take (size + sepTag.length)), v.drop (size + sepTag.length), ?_, ?_, fun z => ?_⟩
        · rw [hp, List.append_assoc, List.append_assoc, List.take_append_drop]
        · rw [hnil]
          unfold tagRound
          rw [if_neg hend, hsep']
          have hdrop : (v.take (size + sepTag.length)).drop (size + sepTag.length) = [] := by
            rw [List.drop_eq_nil_iff, List.length_take]
            omega
          dsimp only
          split
          · exact hdrop
          · rw [pending_tag]
            exact hdrop
        · rw [hnil, hstep z, p.tagRound_append hend hsep' z]
  · rw [p.containerStep_held hp hs hv] at hprogress
    cases hprogress

/-- In the channels a round takes the text up to its marker, or it opens the response before the marker. -/
theorem channel_takes (h : p.skipsBlank = true ∨ p.state = .think ∨ p.state = .response)
    (hprogress : p.step.2.1 = true) :
    (∃ c z, p.pending = c ++ z ∧ Takes p c ∧
      (p.state = .response → ∀ m ∈ channelMarkers, m <+: p.pending → m <+: c)) ∨
      ∃ u m v, m ∈ p.markers ∧ p.pending = u ++ (m ++ v) ∧
        Skips p.markers u (m ++ v) ∧ p.skipsBlank = true ∧
        isBlank u = false ∧ p.step = ([.content u], true, { p with state := .response, pending := m ++ v }) := by
  have hround : ∀ q : Parser V, q.state = p.state → q.step = q.channelStep := by
    intro q hq
    refine step_channel ?_
    rcases h with h | h | h
    · refine .inr (.inl ?_)
      unfold skipsBlank at h ⊢
      rwa [hq]
    · exact .inr (.inr (hq.trans h))
    · exact .inl (.inl (hq.trans h))
  rw [hround p rfl] at hlate hprogress
  rcases cut_cases p.markers_apart p.pending with ⟨u, m, v, hm, hp, hs, -⟩ | ⟨u, v, hp, hs, hv, -⟩
  -- text before the marker opens the response, and the marker is read in the next round
  · by_cases hopen : (p.skipsBlank && !isBlank u) = true
    · refine .inr ⟨u, m, v, hm, hp, hs, ?_⟩
      rw [Bool.and_eq_true, Bool.not_eq_true'] at hopen
      refine ⟨hopen.1, hopen.2, ?_⟩
      rw [hround p rfl, p.channelStep_found hm hp hs, if_pos (by rw [hopen.1, hopen.2]; rfl),
        text_of_skipsBlank (p := { p with pending := m ++ v }) hopen.1 hopen.2]
    · refine .inl ⟨u ++ m, v, by rw [hp, List.append_assoc], ⟨?_, fun z => ?_⟩, fun _ m' hm' hpre => ?_⟩
      · have hs' := hs.swap p.markers_apart hm []
        rw [hround { p with pending := u ++ m } rfl, Parser.channelStep_found { p with pending := u ++ m } hm
          (by rw [List.append_nil]) hs']
        split
        case isTrue htrue => exact absurd htrue hopen
        case isFalse => rfl
      · have hs' : Skips ({ p with pending := u ++ m } : Parser V).markers u (m ++ []) := hs.swap p.markers_apart hm []
        have hstep := channelStep_append (p := { p with pending := u ++ m }) z hm (by rw [List.append_nil]) hs'
        rw [hround { p with pending := u ++ m } rfl, hround { p with pending := u ++ m ++ z } rfl]
        exact hstep
      · rw [hp] at hpre
        exact marker_prefix_of_found (p.markers_subset hm) hm' hpre
  · -- no marker is left
    have hnone : ∀ q : Parser V, q.markers ⊆ p.markers → q.pending = v →
      findFirst q.markers q.pending = none := by
      intro q hsub hq
      rw [hq]
      exact findFirst_eq_none fun m hm x y hxy => hv.free p.markers_apart (hsub hm) hxy
    rw [p.channelStep_held hp hs hv] at hlate hprogress
    split at hlate
    case isTrue hstay =>
      rw [if_pos hstay] at hprogress
      cases hprogress
    case isFalse hgo =>
      rw [Bool.or_eq_true, Bool.and_eq_true, not_or, not_and] at hgo
      have hu : u ≠ [] := by simpa using hgo.1
      by_cases hskip : p.skipsBlank = true
      · have hblank : isBlank u = false := by simpa using hgo.2 hskip
        rw [text_of_skipsBlank (p := { p with pending := v }) hskip hblank] at hlate
        rw [Plain.runLate_of_none (.inl rfl) (hnone _ (response_markers_subset hskip v) rfl)] at hlate
        cases hlate
      · by_cases hplain : p.Plain
        · rw [text_eq_of_plain (p := { p with pending := v }) hplain] at hlate
          rw [Plain.runLate_of_none (p := { p with pending := v }) hplain (hnone _ (fun _ hm => hm) rfl)] at hlate
          cases hlate
        · have hthink : p.state = .think := (h.resolve_left hskip).resolve_right fun hr => hplain (.inl hr)
          have hemitted : p.reasoningEmitted = false := by
            rw [← Bool.not_eq_true]
            exact fun he => hplain (.inr ⟨hthink, he⟩)
          rw [text_of_think (p := { p with pending := v }) hthink hu] at hlate
          have hsub : ({ p with reasoningEmitted := true, pending := v } : Parser V).markers ⊆ p.markers := by
            rw [think_markers hthink hemitted v]
            exact List.subset_append_left _ _
          rw [Plain.runLate_of_none (p := { p with reasoningEmitted := true, pending := v }) (.inr ⟨hthink, rfl⟩)
            (hnone _ hsub rfl)] at hlate
          cases hlate

/-- A round before a late opener. -/
theorem takes_or_opens (hprogress : p.step.2.1 = true) :
    (∃ c z, p.pending = c ++ z ∧ Takes p c ∧
      (p.state = .response → ∀ m ∈ channelMarkers, m <+: p.pending → m <+: c)) ∨
      ∃ u m v, m ∈ p.markers ∧ p.pending = u ++ (m ++ v) ∧
        Skips p.markers u (m ++ v) ∧ p.skipsBlank = true ∧
        isBlank u = false ∧ p.step = ([.content u], true, { p with state := .response, pending := m ++ v }) := by
  cases hstate : p.state with
  | done =>
    unfold step at hprogress
    rw [hstate] at hprogress
    cases hprogress
  | argument =>
    obtain ⟨c, z, hp, ht⟩ := argument_takes hlate hstate
    exact .inl ⟨c, z, hp, ht, fun h => by cases h⟩
  | tools =>
    obtain ⟨c, z, hp, ht⟩ := container_takes hlate (.inl hstate) hprogress
    exact .inl ⟨c, z, hp, ht, fun h => by cases h⟩
  | call =>
    obtain ⟨c, z, hp, ht⟩ := container_takes hlate (.inr hstate) hprogress
    exact .inl ⟨c, z, hp, ht, fun h => by cases h⟩
  | think =>
    have h := channel_takes hlate (.inr (.inl hstate)) hprogress
    rwa [hstate] at h
  | response =>
    have h := channel_takes hlate (.inr (.inr hstate)) hprogress
    rwa [hstate] at h
  | start =>
    have h := channel_takes hlate (.inl (by unfold skipsBlank; rw [hstate]; rfl)) hprogress
    rwa [hstate] at h
  | between =>
    have h := channel_takes hlate (.inl (by unfold skipsBlank; rw [hstate]; rfl)) hprogress
    rwa [hstate] at h

end late

/-- **A run with a late opener comes to it after a first part of the text**, whatever stands behind that part. -/
theorem exists_late {p : Parser V} (h : p.runLate = true) : ∃ (s : Text) (q : Parser V) (d : List Delta),
    p.pending = s ++ q.pending ∧ q.opensLate = true ∧
    (∀ x, ({ p with pending := s ++ x } : Parser V).run =
      (d ++ ({ q with pending := x } : Parser V).run.1, ({ q with pending := x } : Parser V).run.2)) ∧
    (p.state = .response → ∀ m ∈ channelMarkers, m <+: p.pending → m <+: s) := by
  induction hn : p.pending.length using Nat.strong_induction_on generalizing p with
  | _ n ih =>
    have hne : p.pending ≠ [] := by
      intro hnil
      rw [runLate_nil hnil] at h
      cases h
    by_cases hopen : p.opensLate = true
    · refine ⟨[], p, [], rfl, hopen, fun x => rfl, fun hresponse => ?_⟩
      rw [opensLate_of_state (by rw [hresponse]; decide)] at hopen
      cases hopen
    · rw [runLate_step hne, Bool.eq_false_iff.2 hopen, Bool.false_or, Bool.and_eq_true] at h
      obtain ⟨hprogress, hlate⟩ := h
      have hlt := length_step_lt hne hprogress
      obtain ⟨s, q, d, hs, hq, hrun, hmark⟩ := ih _ (hn ▸ hlt) hlate rfl
      rcases takes_or_opens hlate hprogress with
        ⟨c, z, hp, ⟨hnil, htakes⟩, hc⟩ | ⟨u, m, v, hm, hp, hskips, hskip, hblank, hstep⟩
      · have hself : ({ p with pending := c ++ z } : Parser V) = p := by rw [← hp]
        have hstep := htakes z
        rw [hself] at hstep
        have hz : p.step.2.2.pending = z := by
          rw [hstep, append_pending, hnil, List.nil_append]
        have hc₀ : c ≠ [] := by
          rintro rfl
          rw [hz, hp, List.nil_append] at hlt
          exact lt_irrefl _ hlt
        refine ⟨c ++ s, q, p.step.1 ++ d, ?_, hq, fun x => ?_, fun hresponse m hm hpre => ?_⟩
        · rw [hp, List.append_assoc, ← hs, hz]
        · have hround := htakes (s ++ x)
          rw [List.append_assoc, run_progress (p := { p with pending := c ++ (s ++ x) })
            (List.append_ne_nil_of_left_ne_nil hc₀ _) (by rw [hround]), hround, hstep]
          have hnext := hrun x
          rw [hstep] at hnext
          have heq : ({ p with pending := c } : Parser V).step.2.2.append (s ++ x) =
              { ({ p with pending := c } : Parser V).step.2.2.append z with pending := s ++ x } := by
            unfold append
            rw [hnil]
            rfl
          dsimp only
          rw [heq, hnext, List.append_assoc]
        · exact (hc hresponse m hm hpre).trans (List.prefix_append c s)
      · rw [hstep] at hs hrun hmark
        dsimp only at hs hrun hmark
        -- the marker is looked at again in the response
        obtain ⟨s', rfl⟩ := hmark rfl m (p.markers_subset hm) (List.prefix_append m v)
        refine ⟨u ++ (m ++ s'), q, [.content u] ++ d, ?_, hq, fun x => ?_, fun hresponse => ?_⟩
        · rw [hp, hs, List.append_assoc, List.append_assoc, List.append_assoc]
        · have hx : u ++ (m ++ s') ++ x = u ++ (m ++ (s' ++ x)) := by rw [List.append_assoc, List.append_assoc]
          have hround : ({ p with pending := u ++ (m ++ s') ++ x } : Parser V).step =
              ([.content u], true, { p with state := .response, pending := m ++ (s' ++ x) }) := by
            have hskip' : ({ p with pending := u ++ (m ++ s') ++ x } : Parser V).skipsBlank = true := hskip
            rw [step_channel (.inr (.inl hskip')),
              Parser.channelStep_found { p with pending := u ++ (m ++ s') ++ x } hm hx
              (hskips.swap p.markers_apart hm (s' ++ x)), if_pos (by rw [hskip', hblank]; rfl)]
            rw [text_of_skipsBlank (p := { p with pending := m ++ (s' ++ x) }) hskip hblank]
          have hne' : u ++ (m ++ s') ++ x ≠ [] := by
            rw [hx]
            exact List.append_ne_nil_of_right_ne_nil _
              (List.append_ne_nil_of_left_ne_nil (p.markers_apart m hm).1 _)
          rw [run_progress hne' (by rw [hround]), hround]
          have hnext := hrun x
          rw [List.append_assoc] at hnext
          dsimp only
          rw [hnext, List.append_assoc]
        · unfold skipsBlank at hskip
          rw [hresponse] at hskip
          cases hskip

end json

end Parser

/-! ## Every way of cutting the text -/

/-- The first characters of an opener: they stand inside no marker. -/
def openHead : Text := "<|o".toList

theorem openHead_apart : ∀ m ∈ channelMarkers, ∀ j < m.length, 0 < j → Dead [openHead] (m.drop j) := by decide

/-- What is left of the think markers once reasoning was put out. -/
def emittedMarkers : List Text := [messageClose, endOfMessage, toolsOpen, thinkClose, responseOpen]

theorem thinkOpen_dead : ∀ i < thinkOpen.length, Dead emittedMarkers (thinkOpen.drop i) := by decide

section cut

variable {V : Type} [Json V] [WordChars] {q : Parser V} (hthink : q.state = .think)
  (hemitted : q.reasoningEmitted = false)
  {u v : Text}
include hthink hemitted

/-- Cut inside the late opener, the text before it is put out first. -/
theorem run_cut (hu : u ≠ []) (hs : Skips q.markers u (thinkOpen ++ v)) :
    outputOf ({ q with pending := u ++ openHead } : Parser V).run.1 = outputOf [.reasoning u] ∧
      ({ q with pending := u ++ openHead } : Parser V).run.2 =
        { q with reasoningEmitted := true, pending := openHead } := by
  have hsub : q.markers ⊆ channelMarkers := q.markers_subset
  have hskips : Skips q.markers u openHead := by
    have := Skips.of_free (m := openHead) (fun m (hm : m ∈ q.markers) => openHead_apart m (hsub hm))
      (fun m hm => ⟨(q.markers_apart m hm).1, hs.free hm (q.markers_apart m hm).1⟩) []
    rwa [List.append_nil] at this
  have hmarkers : ({ q with reasoningEmitted := true, pending := openHead } : Parser V).markers = emittedMarkers := by
    unfold Parser.markers Parser.transitions
    rw [hthink]
    rfl
  have hheld : Held emittedMarkers openHead := .inr ⟨toolsOpen, by decide, by decide, by decide⟩
  have hheld' : Held q.markers openHead := by
    rw [Parser.think_markers hthink hemitted openHead, hmarkers]
    exact hheld.imp_right fun ⟨m, hm, h⟩ => ⟨m, List.mem_append_left _ hm, h⟩
  have hlate : ({ q with pending := u ++ openHead } : Parser V).opensLate = false := by
    unfold Parser.opensLate
    rw [show findFirst ({ q with pending := u ++ openHead } : Parser V).markers (u ++ openHead) = none from
      findFirst_of_held q.markers_apart hskips hheld', Bool.and_false]
  have hc := Parser.continues_think (p := { q with pending := u ++ openHead }) hthink hemitted hu rfl hskips hlate
  have hplain : ({ q with reasoningEmitted := true, pending := openHead } : Parser V).Plain := .inr ⟨hthink, rfl⟩
  have hrun := Parser.run_held (p := { q with reasoningEmitted := true, pending := openHead })
    (Parser.step_channel (.inl hplain)) (by rw [hmarkers]; exact hheld)
  have hout := hc.output
  have hfinal := hc.final
  rw [hrun.1] at hout hfinal
  rw [← outputOf_append, List.append_nil] at hout
  exact ⟨hout, hfinal⟩

omit hemitted in
/-- The opener is then reasoning text. -/
theorem run_opener (v : Text) :
    outputOf ({ q with reasoningEmitted := true, pending := thinkOpen ++ v } : Parser V).run.1 =
      outputOf [.reasoning thinkOpen] ++ outputOf
        ({ q with reasoningEmitted := true, pending := v } : Parser V).run.1 ∧
    ({ q with reasoningEmitted := true, pending := thinkOpen ++ v } : Parser V).run.2 =
      ({ q with reasoningEmitted := true, pending := v } : Parser V).run.2 := by
  have hmarkers : ({ q with reasoningEmitted := true, pending := thinkOpen ++ v } : Parser V).markers =
    emittedMarkers := by
    unfold Parser.markers Parser.transitions
    rw [hthink]
    rfl
  have hplain : ({ q with reasoningEmitted := true, pending := thinkOpen ++ v } : Parser V).Plain :=
    .inr ⟨hthink, rfl⟩
  have hc := hplain.continues rfl (by rw [hmarkers]; exact Skips.of_dead thinkOpen_dead v)
  rw [Parser.text_of_think (p := { q with reasoningEmitted := true, pending := thinkOpen ++ v })
    hthink (by decide)] at hc
  exact ⟨hc.output, hc.final⟩

/-- Uncut, the late opener is dropped. -/
theorem run_whole (hu : u ≠ []) (hq : q.pending = u ++ (thinkOpen ++ v)) (hs : Skips q.markers u (thinkOpen ++ v)) :
    q.run = ([.reasoning u] ++ ({ q with reasoningEmitted := true, pending := v } : Parser V).run.1,
      ({ q with reasoningEmitted := true, pending := v } : Parser V).run.2) := by
  have hm : thinkOpen ∈ q.markers := by
    rw [Parser.think_markers hthink hemitted []]
    exact List.mem_append_right _ List.mem_cons_self
  have htarget : dictGet q.transitions thinkOpen = some .think := by
    unfold Parser.transitions
    rw [hthink, hemitted]
    decide
  have hskip : q.skipsBlank = false := by
    unfold Parser.skipsBlank
    rw [hthink]
    rfl
  have hstep : q.step = ([.reasoning u], true, { q with reasoningEmitted := true, pending := v }) := by
    rw [Parser.step_channel (.inr (.inr hthink)), q.channelStep_found hm hq hs, if_neg (by simp [hskip]),
      Parser.text_of_think hthink hu, htarget]
    simp only [Option.getD_some, hthink]
  have hne : q.pending ≠ [] := by
    rw [hq]
    exact List.append_ne_nil_of_left_ne_nil hu _
  rw [Parser.run_progress hne (by rw [hstep]), hstep]

end cut

section main

variable (V : Type) [Json V] [WordChars]

/-- Read in one piece, the text has a think opener behind the first text of an open think channel. -/
def opensThinkLate (reasoningOpen : Bool) (text : Text) : Bool :=
  ((Parser.new (V := V) reasoningOpen).append text).runLate

theorem parseChunks_singleton (reasoningOpen : Bool) (text : Text) : parseChunks V reasoningOpen [text] =
    outputOf (((Parser.new (V := V) reasoningOpen).append text).run.1 ++
      ((Parser.new (V := V) reasoningOpen).append text).run.2.finish) := by
  unfold parseChunks Parser.feedAll Parser.feed
  simp [Parser.feedAll]

/-- Without a late opener every way of cutting the text gives what the whole text gives. -/
theorem parseChunks_eq {reasoningOpen : Bool} {text : Text} (h : opensThinkLate V reasoningOpen text = false)
    {chunks : List Text} (hchunks : chunks.flatten = text) :
    parseChunks V reasoningOpen chunks = parseChunks V reasoningOpen [text] := by
  have hpending : (Parser.new (V := V) reasoningOpen).pending = [] := rfl
  have hquiet : (Parser.new (V := V) reasoningOpen).Quiet := by
    unfold Parser.Quiet
    rw [Parser.run_nil hpending]
    exact ⟨rfl, rfl⟩
  obtain ⟨hout, hfinal⟩ := Parser.feedAll_eq chunks hquiet (by rw [hchunks]; exact h)
  rw [parseChunks_singleton]
  unfold parseChunks
  dsimp only
  rw [outputOf_append, outputOf_append, hout, hfinal, hchunks]
  rfl

/-- **Chunks do not matter**, exactly when the text has no late think opener. -/
theorem parseChunks_eq_iff (reasoningOpen : Bool) (text : Text) :
    (∀ chunks : List Text, chunks.flatten = text →
      parseChunks V reasoningOpen chunks = parseChunks V reasoningOpen [text]) ↔
        opensThinkLate V reasoningOpen text = false := by
  constructor
  · intro h
    have hpending : (Parser.new (V := V) reasoningOpen).pending = [] := rfl
    rw [← Bool.not_eq_true]
    intro hlate
    obtain ⟨s, q, d, htext, hopen, hrun, -⟩ := Parser.exists_late hlate
    rw [Parser.append_pending, hpending, List.nil_append] at htext
    unfold Parser.opensLate at hopen
    rw [Bool.and_eq_true, Bool.and_eq_true, decide_eq_true_eq, Bool.not_eq_true'] at hopen
    obtain ⟨⟨hthink, hemitted⟩, hfound⟩ := hopen
    rcases cut_cases q.markers_apart q.pending with ⟨u, m, v, hm, hq, hs, hfind⟩ | ⟨u, v, -, -, -, hfind, -⟩
    · rw [hfind] at hfound
      simp only [Bool.and_eq_true, decide_eq_true_eq] at hfound
      obtain ⟨hpos, rfl⟩ := hfound
      have hu : u ≠ [] := List.length_pos_iff.1 hpos
      have hcut : text = s ++ (u ++ openHead) ++ (thinkOpen.drop 3 ++ v) := by
        rw [htext, hq]
        simp only [List.append_assoc]
        rfl
      have hdiffer := h [s ++ (u ++ openHead), thinkOpen.drop 3 ++ v] (by rw [hcut]; simp)
      -- in one piece
      have hwhole : parseChunks V reasoningOpen [text] = outputOf d ++ (outputOf [.reasoning u] ++
          (outputOf ({ q with reasoningEmitted := true, pending := v } : Parser V).run.1 ++
            outputOf ({ q with reasoningEmitted := true, pending := v } : Parser V).run.2.finish)) := by
        have hall := hrun q.pending
        rw [← htext] at hall
        rw [parseChunks_singleton, show ((Parser.new (V := V) reasoningOpen).append text).run = _ from hall,
          run_whole hthink hemitted hu hq hs]
        simp only [outputOf_append, Output.append_assoc]
      -- in two pieces
      have htwo : parseChunks V reasoningOpen [s ++ (u ++ openHead), thinkOpen.drop 3 ++ v] = outputOf d ++
          (outputOf [.reasoning u] ++ (outputOf [.reasoning thinkOpen] ++
            (outputOf ({ q with reasoningEmitted := true, pending := v } : Parser V).run.1 ++
              outputOf ({ q with reasoningEmitted := true, pending := v } : Parser V).run.2.finish))) := by
        obtain ⟨hfirst, hstate⟩ := run_cut hthink hemitted hu hs
        obtain ⟨hsecond, hfinal⟩ := run_opener hthink v
        have hone : (Parser.new (V := V) reasoningOpen).feed (s ++ (u ++ openHead)) = _ := hrun (u ++ openHead)
        have htail :
          ({ q with reasoningEmitted := true, pending := openHead } : Parser V).feed (thinkOpen.drop 3 ++ v) =
            ({ q with reasoningEmitted := true, pending := thinkOpen ++ v } : Parser V).run := rfl
        simp only [parseChunks, Parser.feedAll]
        rw [hone, hstate, htail, hfinal]
        simp only [List.append_nil, outputOf_append, hfirst, hsecond, Output.append_assoc]
      rw [hwhole, htwo] at hdiffer
      have hlen := congrArg (fun o => o.reasoning.length) hdiffer
      simp only [Output.append_def, outputOf, List.length_append, List.append_nil] at hlen
      have : 0 < thinkOpen.length := by decide
      omega
    · rw [hfind] at hfound
      cases hfound
  · exact fun h chunks hchunks => parseChunks_eq V h hchunks

end main

attribute [local instance] jsonText asciiWords

-- cut inside the opener, the opener is reasoning; in one piece it is not
theorem not_parseChunks_eq : ¬ ∀ (reasoningOpen : Bool) (text : Text) (chunks : List Text), chunks.flatten = text →
    parseChunks Text reasoningOpen chunks = parseChunks Text reasoningOpen [text] := by
  intro h
  have := h true "abc<|open|>think<|sep|>def".toList
    ["abc<".toList, "|open|>think<|sep|>def".toList] (by decide +kernel)
  revert this
  decide +kernel

end NanoEngine.Kimi
