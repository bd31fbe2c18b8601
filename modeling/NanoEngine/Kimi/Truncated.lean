import NanoEngine.Kimi.Render

/-!
# NanoEngine.Kimi.Truncated — a message that is cut off

`finish` looks at what is still pending when the text ends inside a message.

* `Transcript`: the channels in any order, with whitespace around them, and bodies without framing.
* A transcript is a list of pieces (`Piece`), and a cut is a place inside one of them.
* Inside the tools nothing is shown (`Inside`).  Elsewhere only the start of a marker is pending: `finish` drops it from
  two characters on, and shows a lone `<`.
-/

namespace NanoEngine.Kimi

open Markers

/-- What every marker begins with. -/
def framing : Text := ['<', '|']

section prefixes

variable {α : Type} {s t u : List α}

/-- A prefix ends inside the first part or behind it. -/
theorem prefix_append_split (h : s <+: t ++ u) : (s <+: t ∧ s ≠ t) ∨ ∃ v, s = t ++ v ∧ v <+: u := by
  rcases List.prefix_or_prefix_of_prefix h (List.prefix_append t u) with hst | ⟨v, rfl⟩
  · by_cases heq : s = t
    · exact .inr ⟨[], by rw [heq, List.append_nil], List.nil_prefix⟩
    · exact .inl ⟨hst, heq⟩
  · exact .inr ⟨v, rfl, (List.prefix_append_right_inj t).1 h⟩

end prefixes

/-! ## Bodies without framing -/

theorem channelMarkers_framing : ∀ m ∈ channelMarkers, framing <+: m := by decide

/-- Text without framing is skipped before a `<`. -/
theorem skips_of_framing_free {ms : List Text} (hms : ∀ m ∈ ms, framing <+: m) {body t : Text}
    (hbody : ¬ framing <:+: body) (ht : t.head? = some '<') : Skips ms body t := by
  induction body with
  | nil => trivial
  | cons a body ih =>
    have htail : ¬ framing <:+: body := fun h => hbody (h.trans (List.suffix_cons a body).isInfix)
    refine ⟨fun m hm => ?_, ih htail⟩
    obtain ⟨rest, rfl⟩ := hms m hm
    -- the second character is one of the body, or the `<`
    have hsecond : ∀ s, a = '<' → body ++ t = '|' :: s → False := by
      rintro s rfl heq
      cases body with
      | nil =>
        rw [List.nil_append] at heq
        rw [heq] at ht
        cases ht
      | cons b body =>
        obtain rfl : b = '|' := (List.cons.inj heq).1
        exact hbody (List.prefix_append framing body).isInfix
    constructor
    · rintro ⟨s, hs⟩
      obtain ⟨ha, hrest⟩ := List.cons.inj hs
      exact hsecond _ ha.symm hrest.symm
    · rintro ⟨s, hs⟩
      obtain ⟨ha, hrest⟩ := List.cons.inj hs
      cases hbt : body ++ t with
      | nil =>
        obtain ⟨-, rfl⟩ := List.append_eq_nil_iff.1 hbt
        cases ht
      | cons b u =>
        rw [hbt] at hrest
        exact hsecond u ha (by rw [hbt, (List.cons.inj hrest).1])

/-- What is held back of text without framing is at most a `<`. -/
theorem framing_free_cut {ms : List Text} (hms : ∀ m ∈ ms, framing <+: m) {body : Text}
    (hbody : ¬ framing <:+: body) :
    ∃ u v, body = u ++ v ∧ Skips ms u v ∧ (v = [] ∨ v = ['<']) := by
  obtain ⟨u, v, rfl, hs, hv⟩ := exists_cut ms body
  have hfree : ¬ framing <+: v := fun h => hbody (h.isInfix.trans (List.suffix_append u v).isInfix)
  refine ⟨u, v, rfl, hs, ?_⟩
  rcases hv with (rfl | ⟨m, hm, hvm, -⟩) | ⟨m, hm, hmv⟩
  · exact .inl rfl
  · obtain ⟨rest, rfl⟩ := hms m hm
    match v, hvm, hfree with
    | [], _, _ => exact .inl rfl
    | [a], hvm, _ => exact .inr (by rw [(List.cons_prefix_cons.1 hvm).1])
    | a :: b :: v, hvm, hfree =>
      obtain ⟨rfl, hrest⟩ := List.cons_prefix_cons.1 hvm
      obtain ⟨rfl, -⟩ := List.cons_prefix_cons.1 hrest
      exact absurd (List.prefix_append framing v) hfree
  · exact absurd ((hms m hm).trans hmv) hfree

/-- A separator is not found before all of it is there. -/
theorem find_sepTag_of_part {header w : Text} (hs : Skips [sepTag] header sepTag) (hw : w <+: header ++ sepTag)
    (hne : w ≠ header ++ sepTag) : find sepTag w = none := by
  rw [Option.eq_none_iff_forall_ne_some]
  intro i hi
  obtain ⟨y, hy⟩ := hw
  obtain ⟨hfind, hlength⟩ := find_append hi y
  have hall : find sepTag (header ++ sepTag) = some header.length := by
    have h := find_of_skips (m := sepTag) (u := header) (v := []) (by decide) (by rwa [List.append_nil])
    rwa [List.append_nil] at h
  rw [hy, hall] at hfind
  obtain rfl := Option.some.inj hfind
  have hy_nil : y = [] := by
    have hle := congrArg List.length hy
    simp only [List.length_append] at hle
    exact List.eq_nil_of_length_eq_zero (by omega)
  exact hne (by rw [← hy, hy_nil, List.append_nil])

/-- Neither reasoning nor content. -/
def Silent (d : List Delta) : Prop := (outputOf d).reasoning = [] ∧ (outputOf d).content = []

theorem Silent.nil : Silent [] := ⟨rfl, rfl⟩

theorem Silent.append {d e : List Delta} (hd : Silent d) (he : Silent e) : Silent (d ++ e) := by
  unfold Silent
  rw [outputOf_append]
  exact ⟨List.append_eq_nil_iff.2 ⟨hd.1, he.1⟩, List.append_eq_nil_iff.2 ⟨hd.2, he.2⟩⟩

namespace Parser

variable {V : Type} [Json V] [WordChars] {p q : Parser V} {d : List Delta} {v : Text}

/-! ## Inside the tools -/

/-- The run stays inside the tools and shows nothing. -/
structure Inside (p : Parser V) : Prop where
  silent : Silent p.run.1
  state : p.run.2.state = .tools ∨ p.run.2.state = .call ∨ p.run.2.state = .argument
  late : p.runLate = false

theorem Inside.of_continues (hc : Continues d p q) (hd : Silent d) (h : q.Inside) : p.Inside := by
  refine ⟨?_, by rw [hc.final]; exact h.state, hc.late.symm.trans h.late⟩
  unfold Silent
  rw [hc.output]
  exact ⟨List.append_eq_nil_iff.2 ⟨hd.1, h.silent.1⟩, List.append_eq_nil_iff.2 ⟨hd.2, h.silent.2⟩⟩

/-- A tag that has only begun. -/
theorem inside_tag (h : p.state = .tools ∨ p.state = .call) {m header : Text} (hm : m = openTag ∨ m = closeTag)
    (hs : Skips [sepTag] header sepTag) (hp : p.pending <+: m ++ (header ++ sepTag))
    (hne : p.pending ≠ m ++ (header ++ sepTag)) : p.Inside := by
  have hstate : p.state = .tools ∨ p.state = .call ∨ p.state = .argument := h.imp_right .inl
  have hmem : m ∈ tagMarkers := by
    rcases hm with rfl | rfl <;> decide
  have hlate : p.opensLate = false := opensLate_of_state (by rcases h with h | h <;> rw [h] <;> decide)
  rcases prefix_append_split hp with ⟨hpm, hpne⟩ | ⟨w, hw, hpre⟩
  · obtain ⟨hrun, hrunLate⟩ := container_run_held h (u := []) rfl trivial (.inr ⟨m, hmem, hpm, hpne⟩)
    exact ⟨by rw [hrun]; exact Silent.nil, by rw [hrun]; exact hstate, hrunLate⟩
  · have hpending : p.pending ≠ [] := by
      rw [hw]
      exact List.append_ne_nil_of_left_ne_nil (tagMarkers_apart m hmem).1 w
    have hround : p.step = ([], false, { p with pending := m ++ w }) := by
      rw [step_container h, p.containerStep_found (u := []) hmem hw trivial]
      unfold tagRound
      rw [if_neg (by rcases hm with rfl | rfl <;> decide),
        find_sepTag_of_part hs hpre fun heq => hne (by rw [hw, heq])]
    have hrun := run_stuck hpending (by rw [hround])
    refine ⟨by rw [hrun, hround]; exact Silent.nil, by rw [hrun, hround]; exact hstate, ?_⟩
    rw [runLate_step hpending, hlate, hround]
    rfl

/-- The body of an argument, as long as it is not closed. -/
theorem inside_argument (h : p.state = .argument) {body : Text} (hfree : ¬ argumentClose <:+: body)
    (hp : p.pending <+: body ++ argumentClose) (hne : p.pending ≠ body ++ argumentClose) : p.Inside := by
  rcases cut_cases argumentClose_apart p.pending with ⟨u, m, w, hm, hcut, -, hfind⟩ | ⟨u, w, hcut, hs, hw, -, -⟩
  · -- then the body would be closed
    exfalso
    obtain rfl := List.mem_singleton.1 hm
    obtain ⟨y, hy⟩ := hp
    rw [findFirst_singleton] at hfind
    obtain ⟨i, hi, heq⟩ := Option.map_eq_some_iff.1 hfind
    cases heq
    obtain ⟨hfound, hlength⟩ := find_append hi y
    have hs : Skips [argumentClose] body (argumentClose ++ []) := by
      refine Skips.of_free (fun m hm => (argumentClose_apart _ List.mem_cons_self).2 m hm |>.2) (fun m hm => ?_) []
      obtain rfl := List.mem_singleton.1 hm
      exact ⟨by decide, hfree⟩
    have hall := find_of_skips argumentClose_apart hs
    rw [List.append_nil, ← hy, hfound] at hall
    have hle := congrArg List.length hy
    have heq := Option.some.inj hall
    simp only [List.length_append] at hle
    have hy_nil : y = [] := List.eq_nil_of_length_eq_zero (by omega)
    exact hne (by rw [← hy, hy_nil, List.append_nil])
  · obtain ⟨hrun, hlate⟩ := argument_run_held h hcut hs hw
    exact ⟨by rw [hrun]; exact Silent.nil, by rw [hrun]; exact .inr (.inr h), hlate⟩

theorem inside_arguments (arguments : List (Argument V)) (h : p.state = .call)
    (hp : p.pending <+: arguments.flatMap Argument.render ++ (closeTag ++ ("call".toList ++ sepTag)))
    (hne : p.pending ≠ arguments.flatMap Argument.render ++ (closeTag ++ ("call".toList ++ sepTag))) : p.Inside := by
  induction arguments generalizing p with
  | nil => exact inside_tag (.inr h) (.inr rfl) (Skips.of_dead (by decide) _) hp hne
  | cons a arguments ih =>
    rw [List.flatMap_cons, List.append_assoc] at hp hne
    rcases prefix_append_split hp with ⟨hpa, hpne⟩ | ⟨w, hw, hpre⟩
    · -- the text ends in this argument
      have hrender : a.render = (openTag ++ (a.header ++ sepTag)) ++ (a.body ++ argumentClose) := by
        simp only [Argument.render, List.append_assoc]
      rw [hrender] at hpa hpne
      rcases prefix_append_split hpa with ⟨htag, htne⟩ | ⟨w, hw, hpre⟩
      · exact inside_tag (.inr h) (.inl rfl) (skips_argument a _) htag htne
      · simp only [List.append_assoc] at hw
        exact (inside_argument rfl a.body_free hpre fun heq => hpne (by rw [hw, ← heq]; simp)).of_continues
          (continues_argument_tag h a hw) Silent.nil
    · obtain ⟨q, hc, hstate, hpending, -⟩ := continues_argument_value h a hw
      refine (ih hstate (by rw [hpending]; exact hpre) fun heq => hne ?_).of_continues hc Silent.nil
      rw [hw, ← hpending, heq]

/-- The arguments of a call are read, whatever their values. -/
theorem continues_arguments_value (arguments : List (Argument V)) (h : p.state = .call)
    (hp : p.pending = arguments.flatMap Argument.render ++ v) :
    ∃ q : Parser V, Continues [] p q ∧ q.state = .call ∧ q.pending = v ∧ q.callName = p.callName := by
  induction arguments generalizing p with
  | nil => exact ⟨p, Continues.refl p, h, hp, rfl⟩
  | cons a arguments ih =>
    rw [List.flatMap_cons, List.append_assoc] at hp
    obtain ⟨q, hc, hstate, hpending, hname, -⟩ := continues_argument_value h a hp
    obtain ⟨q', hc', hstate', hpending', hname'⟩ := ih hstate hpending
    exact ⟨q', hc.trans hc', hstate', hpending', hname'.trans hname⟩

theorem inside_call (h : p.state = .tools) (c : Call V) (hp : p.pending <+: c.render) (hne : p.pending ≠ c.render) :
    p.Inside := by
  have hrender : c.render = (openTag ++ (c.header ++ sepTag)) ++
      (c.arguments.flatMap Argument.render ++ (closeTag ++ ("call".toList ++ sepTag))) := by
    simp only [Call.render, List.append_assoc]
  rw [hrender] at hp hne
  rcases prefix_append_split hp with ⟨htag, htne⟩ | ⟨w, hw, hpre⟩
  · exact inside_tag (.inl h) (.inl rfl) (skips_call c _) htag htne
  · simp only [List.append_assoc] at hw
    exact (inside_arguments c.arguments rfl hpre fun heq => hne (by rw [hw, ← heq]; simp)).of_continues
      (continues_call_tag h c hw) Silent.nil

theorem continues_call_silent (h : p.state = .tools) (c : Call V) (hp : p.pending = c.render ++ v) :
    ∃ (d : List Delta) (q : Parser V), Continues d p q ∧ Silent d ∧ q.state = .tools ∧ q.pending = v := by
  have hp' : p.pending = openTag ++ (c.header ++ (sepTag ++ (c.arguments.flatMap Argument.render ++
      (closeTag ++ ("call".toList ++ (sepTag ++ v)))))) := by
    rw [hp]
    simp only [Call.render, List.append_assoc]
  have htag := continues_call_tag h c hp'
  obtain ⟨q, hc, hstate, hpending, hname⟩ := continues_arguments_value c.arguments rfl rfl (p := { p with
    pending := c.arguments.flatMap Argument.render ++ (closeTag ++ ("call".toList ++ (sepTag ++ v)))
    callName := c.name
    arguments := []
    state := .call })
  have hclose := continues_call_close hstate (by rw [hname]; exact c.name_ne) hpending
  exact ⟨_, _, (htag.trans hc).trans hclose, ⟨rfl, rfl⟩, rfl, rfl⟩

theorem inside_calls (calls : List (Call V)) (h : p.state = .tools)
    (hp : p.pending <+: calls.flatMap Call.render ++ toolsClose)
    (hne : p.pending ≠ calls.flatMap Call.render ++ toolsClose) : p.Inside := by
  induction calls generalizing p with
  | nil =>
    have hclose : p.pending <+: closeTag ++ ("tools".toList ++ sepTag) := hp
    exact inside_tag (.inl h) (.inr rfl) (Skips.of_dead (by decide) _) hclose hne
  | cons c calls ih =>
    rw [List.flatMap_cons, List.append_assoc] at hp hne
    rcases prefix_append_split hp with ⟨hpc, hpne⟩ | ⟨w, hw, hpre⟩
    · exact inside_call h c hpc hpne
    · obtain ⟨d, q, hc, hd, hstate, hpending⟩ := continues_call_silent h c hw
      refine (ih hstate (by rw [hpending]; exact hpre) fun heq => hne ?_).of_continues hc hd
      rw [hw, ← hpending, heq]

theorem continues_calls_silent (calls : List (Call V)) (h : p.state = .tools)
    (hp : p.pending = calls.flatMap Call.render ++ (toolsClose ++ v)) :
    ∃ (d : List Delta) (q : Parser V), Continues d p q ∧ Silent d ∧ q.skipsBlank = true ∧ q.pending = v := by
  induction calls generalizing p with
  | nil => exact ⟨_, _, continues_tools_close h hp, Silent.nil, rfl, rfl⟩
  | cons c calls ih =>
    rw [List.flatMap_cons, List.append_assoc] at hp
    obtain ⟨d, q, hc, hd, hstate, hpending⟩ := continues_call_silent h c hp
    obtain ⟨e, q', hc', he, hskip, hpending'⟩ := ih hstate hpending
    exact ⟨d ++ e, q', hc.trans hc', hd.append he, hskip, hpending'⟩

end Parser

/-! ## Pieces and cuts -/

inductive Piece
  | blank (text : Text)
  | marker (text : Text)
  | other (text : Text)

def Piece.text : Piece → Text
  | .blank t | .marker t | .other t => t

def piecesText (pieces : List Piece) : Text := pieces.flatMap Piece.text

/-- The cut is right behind the first character of a marker. -/
def LoneStart (pieces : List Piece) (t : Text) : Prop :=
  ∃ front m rest, pieces = front ++ .marker m :: rest ∧ t = piecesText front ++ ['<']

/-- The cut is inside a marker that stands behind whitespace, and not right behind its first character. -/
def BehindBlank (pieces : List Piece) (t : Text) : Prop :=
  ∃ front u m rest x, pieces = front ++ .blank u :: .marker m :: rest ∧ u ≠ [] ∧ x <+: m ∧
    x ≠ m ∧ 2 ≤ x.length ∧
    t = piecesText front ++ (u ++ x)

/-- What may be shown: own text, and a `<` where the text was cut behind it. -/
structure Safe (pieces : List Piece) (content reasoning t : Text) (o : Output) : Prop where
  content : o.content <+: content ∨
    LoneStart pieces t ∧ ∃ c u, c <+: content ∧ isBlank u = true ∧ o.content = c ++ (u ++ ['<'])
  reasoning : o.reasoning <+: reasoning ∨ LoneStart pieces t ∧ ∃ r, r <+: reasoning ∧ o.reasoning = r ++ ['<']

section cuts

variable {pieces front : List Piece} {content reasoning t : Text} {o o' : Output}

theorem piecesText_append (front pieces : List Piece) :
    piecesText (front ++ pieces) = piecesText front ++ piecesText pieces :=
  List.flatMap_append

theorem LoneStart.prepend (front : List Piece) (h : LoneStart pieces t) :
    LoneStart (front ++ pieces) (piecesText front ++ t) := by
  obtain ⟨before, m, rest, rfl, rfl⟩ := h
  exact ⟨front ++ before, m, rest, (List.append_assoc _ _ _).symm, by rw [piecesText_append, List.append_assoc]⟩

theorem BehindBlank.prepend (front : List Piece) (h : BehindBlank pieces t) :
    BehindBlank (front ++ pieces) (piecesText front ++ t) := by
  obtain ⟨before, u, m, rest, x, rfl, hu, hx, hne, hlength, rfl⟩ := h
  refine ⟨front ++ before, u, m, rest, x, (List.append_assoc _ _ _).symm, hu, hx, hne, hlength, ?_⟩
  rw [piecesText_append, List.append_assoc]

theorem Safe.nothing (hr : o.reasoning = []) (hc : o.content = []) : Safe pieces content reasoning t o :=
  ⟨.inl (by rw [hc]; exact List.nil_prefix), .inl (by rw [hr]; exact List.nil_prefix)⟩

/-- What is shown before does not change what may be shown behind. -/
theorem Safe.prepend (front : List Piece) (h : Safe pieces content reasoning t o') :
    Safe (front ++ pieces) (o.content ++ content) (o.reasoning ++ reasoning) (piecesText front ++ t) (o ++ o') := by
  constructor
  · rcases h.content with hc | ⟨hlone, c, u, hc, hu, heq⟩
    · exact .inl ((List.prefix_append_right_inj _).2 hc)
    · refine .inr ⟨hlone.prepend front, o.content ++ c, u, (List.prefix_append_right_inj _).2 hc, hu, ?_⟩
      rw [List.append_assoc, ← heq]
      rfl
  · rcases h.reasoning with hr | ⟨hlone, r, hr, heq⟩
    · exact .inl ((List.prefix_append_right_inj _).2 hr)
    · refine .inr ⟨hlone.prepend front, o.reasoning ++ r, (List.prefix_append_right_inj _).2 hr, ?_⟩
      rw [List.append_assoc, ← heq]
      rfl

end cuts

namespace Parser

variable {V : Type} [Json V] [WordChars] {p q : Parser V} {d : List Delta} {u v m x : Text}

/-- What is shown in all when the text ends here. -/
def shown (p : Parser V) : Output := outputOf (p.run.1 ++ p.run.2.finish)

theorem Continues.shown_eq (hc : Continues d p q) : p.shown = outputOf d ++ q.shown := by
  unfold shown
  rw [outputOf_append, outputOf_append, hc.output, hc.final, Output.append_assoc]

theorem Inside.shown_nil (h : p.Inside) : p.shown.reasoning = [] ∧ p.shown.content = [] := by
  have hfinish : p.run.2.finish = [] := by
    unfold finish skipsBlank
    rcases h.state with hs | hs | hs <;> rw [hs] <;> rfl
  unfold shown
  rw [hfinish, List.append_nil]
  exact h.silent

/-! ## Between the channels -/

/-- Whitespace and the start of a marker stay pending. -/
theorem blank_run_held (h : p.skipsBlank = true) (hp : p.pending = u ++ x) (hu : isBlank u = true)
    (hx : Held p.markers x) : p.run = ([], p) ∧ p.runLate = false := by
  by_cases hne : p.pending = []
  · exact ⟨run_nil hne, runLate_nil hne⟩
  · have hround : p.step = ([], false, p) := by
      rw [step_channel (.inr (.inl h)), p.channelStep_held hp (skips_of_notMem (notMem_of_isBlank hu) _) hx, if_pos]
      rw [h, hu]
      simp
    refine ⟨by rw [run_stuck hne (by rw [hround]), hround], ?_⟩
    rw [runLate_step hne, opensLate_of_state (state_ne_of_skipsBlank h), hround]
    rfl

omit [Json V] [WordChars] in
theorem finish_eq (h : p.skipsBlank = true ∨ p.state = .think ∨ p.state = .response) :
    p.finish = if framing <+: p.pending then [] else (p.text p.pending).1 := by
  have hopen : (p.skipsBlank || decide (p.state = .think) || decide (p.state = .response)) = true := by
    rw [Bool.or_eq_true, Bool.or_eq_true, decide_eq_true_eq, decide_eq_true_eq, or_assoc]
    exact h
  have hframing : "<|".toList = framing := rfl
  unfold finish
  rw [if_pos hopen, hframing]
  by_cases hp : framing <+: p.pending
  · rw [if_pos hp, if_pos (List.isPrefixOf_iff_prefix.2 hp)]
  · rw [if_neg hp, if_neg fun hp' => hp (List.isPrefixOf_iff_prefix.1 hp')]

omit [Json V] [WordChars] in
theorem text_blank (h : p.skipsBlank = true) (hu : isBlank u = true) : (p.text u).1 = [] := by
  unfold text
  split_ifs with h₁ h₂
  · rfl
  · exact absurd h₂ (state_ne_of_skipsBlank h)
  · rfl

omit [Json V] [WordChars] in
/-- A lone `<` makes content of the whitespace before it. -/
theorem text_lone (h : p.skipsBlank = true) (u : Text) : (p.text (u ++ ['<'])).1 = [.content (u ++ ['<'])] := by
  have hblank : isBlank (u ++ ['<']) = false := by
    rw [isBlank, List.all_append]
    simp [isSpace]
  unfold text
  rw [if_neg (by simp), if_neg (state_ne_of_skipsBlank h), if_pos h, hblank]
  rfl

omit [WordChars] in
theorem not_framing_prefix_lone (hu : '<' ∉ u) : ¬ framing <+: u ++ ['<'] := by
  intro hp
  cases u with
  | nil => exact absurd hp.length_le (by simp [framing])
  | cons a u => exact hu (by rw [(List.cons_prefix_cons.1 hp).1]; exact List.mem_cons_self)

/-- Cut between the channels or inside a marker that opens one. -/
theorem cut_marker (h : p.skipsBlank = true) (hp : p.pending = u ++ x) (hu : isBlank u = true) (hm : m ∈ p.markers)
    (hx : x <+: m) (hne : x ≠ m) (rest : List Piece) (content reasoning : Text) : p.runLate = false ∧
      (¬ BehindBlank (.blank u :: .marker m :: rest) (u ++ x) →
        Safe (.blank u :: .marker m :: rest) content reasoning (u ++ x) p.shown) := by
  obtain ⟨hrun, hlate⟩ := blank_run_held h hp hu (.inr ⟨m, hm, hx, hne⟩)
  refine ⟨hlate, fun hblank => ?_⟩
  have hshown : p.shown = outputOf (if framing <+: u ++ x then [] else (p.text (u ++ x)).1) := by
    unfold shown
    rw [hrun, List.nil_append, finish_eq (.inl h), hp]
  have hframing := channelMarkers_framing m (p.markers_subset hm)
  match x, hx, hblank with
  | [], _, _ =>
    -- only whitespace is pending
    rw [List.append_nil, text_blank h hu, ite_self] at hshown
    exact Safe.nothing (by rw [hshown]; rfl) (by rw [hshown]; rfl)
  | [a], hx, _ =>
    obtain ⟨tail, rfl⟩ := hframing
    obtain rfl : a = '<' := (List.cons_prefix_cons.1 hx).1
    rw [if_neg (not_framing_prefix_lone (notMem_of_isBlank hu)), text_lone h] at hshown
    constructor
    · refine .inr ⟨⟨[.blank u], _, rest, rfl, by simp [piecesText, Piece.text]⟩, [], u,
        List.nil_prefix, hu, ?_⟩
      rw [hshown]
      simp [outputOf]
    · rw [hshown]
      exact .inl List.nil_prefix
  | a :: b :: x, hx, hblank =>
    by_cases hnil : u = []
    · subst hnil
      have hstart : framing <+: a :: b :: x :=
        List.prefix_of_prefix_length_le hframing hx (by simp [framing])
      rw [List.nil_append, if_pos hstart] at hshown
      exact Safe.nothing (by rw [hshown]; rfl) (by rw [hshown]; rfl)
    · exact absurd ⟨[], u, m, rest, a :: b :: x, rfl, hnil, hx, hne, by simp, rfl⟩ hblank

/-! ## In a body -/

/-- The marker that closes the channel. -/
def closer (channel : Channel) : Text := if channel = .think then thinkClose else responseClose

omit [Json V] [WordChars] in
theorem closer_mem (h : p.state = .think ∨ p.state = .response) : closer p.state ∈ p.markers := by
  unfold markers transitions
  rcases h with h | h <;> rw [h] <;> simp [closer]

omit [Json V] [WordChars] in
theorem skipsBlank_of_open (h : p.state = .think ∨ p.state = .response) : p.skipsBlank = false := by
  unfold skipsBlank
  rcases h with h | h <;> rw [h] <;> rfl

omit [Json V] [WordChars] in
theorem text_state (h : p.state = .think ∨ p.state = .response) (t : Text) : (p.text t).2.state = p.state := by
  unfold text
  rw [skipsBlank_of_open h]
  simp only [Bool.false_eq_true, if_false]
  split_ifs <;> rfl

/-- The body is shown up to the start of the closing marker. -/
theorem body_run_held (h : p.state = .think ∨ p.state = .response) (hp : p.pending = u ++ x)
    (hs : Skips p.markers u x) (hx : x <+: closer p.state) (hne : x ≠ closer p.state) :
    ∃ q : Parser V, p.run = ((p.text u).1, q) ∧ q.state = p.state ∧ q.pending = x ∧ p.runLate = false := by
  have hheld : Held p.markers x := .inr ⟨_, closer_mem h, hx, hne⟩
  have hchannel : ∀ {q : Parser V}, q.state = p.state → q.step = q.channelStep := fun {q} hq => by
    unfold step
    rw [hq]
    rcases h with h | h <;> rw [h]
  by_cases hu : u = []
  · subst hu
    rw [List.nil_append] at hp
    obtain ⟨hrun, hlate⟩ := run_held (hchannel rfl) (by rw [hp]; exact hheld)
    exact ⟨p, by rw [hrun]; rfl, rfl, hp, hlate⟩
  · have hpending : p.pending ≠ [] := by
      rw [hp]
      exact List.append_ne_nil_of_left_ne_nil hu x
    have hround : p.step = (({ p with pending := x }.text u).1, true, ({ p with pending := x }.text u).2) := by
      rw [hchannel rfl, p.channelStep_held hp hs hheld, if_neg]
      rw [skipsBlank_of_open h]
      simpa using hu
    have hlate : p.opensLate = false := by
      have hnone := findFirst_of_held p.markers_apart hs hheld
      unfold opensLate
      rw [hp, hnone, Bool.and_false]
    set q := ({ p with pending := x }.text u).2 with hq
    have hstate : q.state = p.state := text_state (p := { p with pending := x }) h u
    have hqx : q.pending = x := pending_text _ u
    have hqheld : Held q.markers q.pending := by
      refine .inr ⟨_, closer_mem (p := q) (by rw [hstate]; exact h), ?_, ?_⟩
      · rw [hqx, hstate]
        exact hx
      · rw [hqx, hstate]
        exact hne
    obtain ⟨hrun, hrunLate⟩ := run_held (hchannel hstate) hqheld
    refine ⟨q, ?_, hstate, hqx, ?_⟩
    · rw [run_progress hpending (by rw [hround]), hround, hrun, List.append_nil, text_pending]
    · rw [runLate_step hpending, hlate, hround, hrunLate]
      rfl

/-- Text on the reasoning or on the content channel. -/
def onChannel (channel : Channel) (t : Text) : Output := if channel = .think then ⟨t, [], []⟩ else ⟨[], t, []⟩

omit [WordChars] in
theorem onChannel_append (channel : Channel) (s t : Text) :
    onChannel channel s ++ onChannel channel t = onChannel channel (s ++ t) := by
  unfold onChannel
  split_ifs <;> rfl

omit [Json V] [WordChars] in
theorem outputOf_text (h : p.state = .think ∨ p.state = .response) (t : Text) :
    outputOf (p.text t).1 = onChannel p.state t := by
  unfold text onChannel
  rw [skipsBlank_of_open h]
  cases t with
  | nil => split_ifs <;> rfl
  | cons a t => rcases h with h | h <;> rw [h] <;> simp [outputOf]

/-- What is shown of a body, and of the start of its closing marker. -/
theorem shown_body (h : p.state = .think ∨ p.state = .response) (hp : p.pending = u ++ x) (hs : Skips p.markers u x)
    (hx : x <+: closer p.state) (hne : x ≠ closer p.state) :
    p.runLate = false ∧ p.shown = onChannel p.state (u ++ if framing <+: x then [] else x) := by
  obtain ⟨q, hrun, hstate, hpending, hlate⟩ := body_run_held h hp hs hx hne
  refine ⟨hlate, ?_⟩
  have hq : q.state = .think ∨ q.state = .response := by rwa [hstate]
  unfold shown
  rw [hrun, outputOf_append, outputOf_text h, finish_eq (.inr hq), hpending, ← onChannel_append]
  split_ifs
  · cases p.state <;> rfl
  · rw [outputOf_text hq, hstate]

/-- Cut inside a body or inside the marker that closes it. -/
theorem cut_body (h : p.state = .think ∨ p.state = .response) {body : Text} (hbody : ¬ framing <:+: body)
    (hp : p.pending <+: body ++ closer p.state) (hne : p.pending ≠ body ++ closer p.state) (rest : List Piece)
    (content reasoning : Text) : p.runLate = false ∧
      Safe (.other body :: .marker (closer p.state) :: rest) ((onChannel p.state body).content ++ content)
        ((onChannel p.state body).reasoning ++ reasoning) p.pending p.shown := by
  have hms : ∀ m ∈ p.markers, framing <+: m := fun m hm => channelMarkers_framing m (p.markers_subset hm)
  have hcloser := hms _ (closer_mem h)
  by_cases hpb : p.pending <+: body
  · -- the text ends in the body: all of it is shown
    obtain ⟨u, v, huv, hs, hv⟩ := framing_free_cut hms fun hin => hbody (hin.trans hpb.isInfix)
    have hnot : ¬ framing <+: v := fun hf => by
      rcases hv with rfl | rfl <;> exact absurd hf.length_le (by simp [framing])
    have hheld : v <+: closer p.state ∧ v ≠ closer p.state := by
      rcases hv with rfl | rfl <;> unfold closer <;> split_ifs <;> decide
    obtain ⟨hlate, hshown⟩ := shown_body h huv hs hheld.1 hheld.2
    rw [if_neg hnot, ← huv] at hshown
    refine ⟨hlate, ?_⟩
    rw [hshown]
    unfold onChannel
    split_ifs
    · exact ⟨.inl List.nil_prefix, .inl (hpb.trans (List.prefix_append _ _))⟩
    · exact ⟨.inl (hpb.trans (List.prefix_append _ _)), .inl List.nil_prefix⟩
  · rcases prefix_append_split hp with ⟨hin, -⟩ | ⟨x, hx, hpre⟩
    · exact absurd hin hpb
    have hxne : x ≠ closer p.state := fun heq => hne (by rw [hx, heq])
    obtain ⟨tail, htail⟩ := hcloser
    match x, hx, hpre, hxne with
    | [], hx, _, _ => exact absurd (by rw [hx, List.append_nil]) hpb
    | [a], hx, hpre, hxne =>
      -- a lone `<` is shown
      rw [← htail] at hpre
      obtain rfl : a = '<' := (List.cons_prefix_cons.1 hpre).1
      rw [htail] at hpre
      obtain ⟨hlate, hshown⟩ := shown_body h hx (skips_of_framing_free hms hbody rfl) hpre hxne
      rw [if_neg fun hf => absurd hf.length_le (by simp [framing])] at hshown
      refine ⟨hlate, ?_⟩
      have hlone : LoneStart (.other body :: .marker (closer p.state) :: rest) p.pending :=
        ⟨[.other body], _, rest, rfl, by rw [hx]; simp [piecesText, Piece.text]⟩
      rw [hshown]
      unfold onChannel
      split_ifs
      · exact ⟨.inl List.nil_prefix, .inr ⟨hlone, body, List.prefix_append _ _, rfl⟩⟩
      · exact ⟨.inr ⟨hlone, body, [], List.prefix_append _ _, rfl, rfl⟩, .inl List.nil_prefix⟩
    | a :: b :: x, hx, hpre, hxne =>
      have hstart : framing <+: a :: b :: x :=
        List.prefix_of_prefix_length_le ⟨tail, htail⟩ hpre (by simp [framing])
      have hhead : (a :: b :: x).head? = some '<' := by
        rw [List.head?_cons, (List.cons_prefix_cons.1 hstart).1]
      obtain ⟨hlate, hshown⟩ := shown_body h hx (skips_of_framing_free hms hbody hhead) hpre hxne
      rw [if_pos hstart, List.append_nil] at hshown
      exact ⟨hlate, by rw [hshown]; exact ⟨.inl (List.prefix_append _ _), .inl (List.prefix_append _ _)⟩⟩

/-- Cut before a channel is opened, or the message closed. -/
theorem cut_opening (h : p.skipsBlank = true) (hu : isBlank u = true) (hm : m ∈ p.markers) (hp : p.pending <+: u ++ m)
    (hne : p.pending ≠ u ++ m) (rest : List Piece) (content reasoning : Text) : p.runLate = false ∧
      (¬ BehindBlank (.blank u :: .marker m :: rest) p.pending →
        Safe (.blank u :: .marker m :: rest) content reasoning p.pending p.shown) := by
  rcases prefix_append_split hp with ⟨hin, -⟩ | ⟨x, hx, hpre⟩
  · have hblank : isBlank p.pending = true := by
      obtain ⟨tail, rfl⟩ := hin
      rw [isBlank, List.all_append, Bool.and_eq_true] at hu
      exact hu.1
    obtain ⟨hrun, hlate⟩ := blank_run_held h (List.append_nil _).symm hblank (.inl rfl)
    refine ⟨hlate, fun _ => Safe.nothing ?_ ?_⟩ <;>
    · unfold shown
      rw [hrun, List.nil_append, finish_eq (.inl h), text_blank h hblank, ite_self]
      rfl
  · have hxne : x ≠ m := fun heq => hne (by rw [hx, heq])
    have hcut := cut_marker h hx hu hm hpre hxne rest content reasoning
    rwa [← hx] at hcut

end Parser

/-! ## Transcripts -/

section transcripts

variable (V : Type) [Json V]

inductive Block
  | think (body : Text)
  | response (body : Text)
  | tools (calls : List (Call V))

variable {V}

namespace Block

def render : Block V → Text
  | .think body => thinkOpen ++ (body ++ thinkClose)
  | .response body => responseOpen ++ (body ++ responseClose)
  | .tools calls => toolsOpen ++ (calls.flatMap Call.render ++ toolsClose)

def pieces : Block V → List Piece
  | .think body => [.marker thinkOpen, .other body, .marker thinkClose]
  | .response body => [.marker responseOpen, .other body, .marker responseClose]
  | .tools calls => [.marker toolsOpen, .other (calls.flatMap Call.render ++ toolsClose)]

def content : Block V → Text
  | .response body => body
  | _ => []

def reasoning : Block V → Text
  | .think body => body
  | _ => []

theorem piecesText_pieces (b : Block V) : piecesText b.pieces = b.render := by
  cases b <;> simp [piecesText, pieces, render, Piece.text]

end Block

/-- The blocks of a message, each with the whitespace before it, and the whitespace behind the last one. -/
def piecesOf (blocks : List (Text × Block V)) (last : Text) : List Piece :=
  blocks.flatMap (fun b => .blank b.1 :: b.2.pieces) ++ [.blank last, .marker messageClose, .other endOfMessage]

def contentOf (blocks : List (Text × Block V)) : Text := blocks.flatMap fun b => b.2.content

def reasoningOf (blocks : List (Text × Block V)) : Text := blocks.flatMap fun b => b.2.reasoning

variable (V) in
/-- A message: its channels in any order, and no framing in the bodies. -/
structure Transcript where
  blocks : List (Text × Block V)
  last : Text
  blank : ∀ b ∈ blocks, isBlank b.1 = true
  last_blank : isBlank last = true
  content_free : ¬ framing <:+: contentOf blocks
  reasoning_free : ¬ framing <:+: reasoningOf blocks

namespace Transcript

def render (m : Transcript V) : Text :=
  m.blocks.flatMap (fun b => b.1 ++ b.2.render) ++ (m.last ++ (messageClose ++ endOfMessage))

def pieces (m : Transcript V) : List Piece := piecesOf m.blocks m.last

def content (m : Transcript V) : Text := contentOf m.blocks

def reasoning (m : Transcript V) : Text := reasoningOf m.blocks

theorem piecesText_pieces (m : Transcript V) : piecesText m.pieces = m.render := by
  have hblocks : ∀ blocks : List (Text × Block V),
      piecesText (blocks.flatMap fun b => .blank b.1 :: b.2.pieces) = blocks.flatMap fun b => b.1 ++ b.2.render := by
    intro blocks
    induction blocks with
    | nil => rfl
    | cons b blocks ih =>
      rw [List.flatMap_cons, List.flatMap_cons, piecesText_append, ih, ← b.2.piecesText_pieces]
      rfl
  rw [pieces, piecesOf, piecesText_append, hblocks, render]
  simp [piecesText, Piece.text]

end Transcript

end transcripts

namespace Parser

variable {V : Type} [Json V] [WordChars] {p q : Parser V} {u v m x : Text}

/-- The end of the message, cut anywhere. -/
theorem cut_end (h : p.skipsBlank = true) (hu : isBlank u = true)
    (hp : p.pending <+: u ++ (messageClose ++ endOfMessage))
    (content reasoning : Text) : p.runLate = false ∧
      (¬ BehindBlank [.blank u, .marker messageClose, .other endOfMessage] p.pending →
        Safe [.blank u, .marker messageClose, .other endOfMessage] content reasoning p.pending p.shown) := by
  rw [← List.append_assoc] at hp
  have hmem : messageClose ∈ p.markers := by
    unfold markers
    rw [skip_transitions h]
    decide
  rcases prefix_append_split hp with ⟨hin, hne⟩ | ⟨x, hx, -⟩
  · exact cut_opening h hu hmem hin hne _ content reasoning
  · rw [List.append_assoc] at hx
    have hc := continues_blank_marker h hu (by simp : (messageClose, Channel.done) ∈ _) hx
    have hdone := done_run (p := { p with pending := x, state := .done }) rfl
    refine ⟨hc.late.symm.trans hdone.2, fun _ => ?_⟩
    have hshown : p.shown = outputOf [] := by
      rw [hc.shown_eq]
      unfold shown
      rw [hdone.1]
      rfl
    exact Safe.nothing (by rw [hshown]; rfl) (by rw [hshown]; rfl)

/-- Cut inside an open channel, or before it is opened. -/
theorem cut_open (h : p.skipsBlank = true) (hu : isBlank u = true) {channel : Channel} {opener body : Text}
    (hopener : (opener, channel) ∈ [(thinkOpen, Channel.think), (responseOpen, .response)])
    (hbody : ¬ framing <:+: body) (hp : p.pending <+: u ++ (opener ++ (body ++ closer channel)))
    (hne : p.pending ≠ u ++ (opener ++ (body ++ closer channel))) (rest : List Piece) (content reasoning : Text) :
    p.runLate = false ∧
      (¬ BehindBlank (.blank u :: .marker opener :: .other body :: .marker (closer channel) :: rest) p.pending →
        Safe (.blank u :: .marker opener :: .other body :: .marker (closer channel) :: rest)
          ((onChannel channel body).content ++ content) ((onChannel channel body).reasoning ++ reasoning)
          p.pending p.shown) := by
  have hopen : channel = .think ∨ channel = .response := by
    simp only [List.mem_cons, Prod.mk.injEq, List.not_mem_nil, or_false] at hopener
    exact hopener.imp And.right And.right
  have hmem : opener ∈ p.markers := by
    unfold markers
    rw [skip_transitions h]
    simp only [List.mem_cons, Prod.mk.injEq, List.not_mem_nil, or_false] at hopener
    rcases hopener with ⟨rfl, -⟩ | ⟨rfl, -⟩ <;> decide
  rw [← List.append_assoc] at hp hne
  rcases prefix_append_split hp with ⟨hin, hin_ne⟩ | ⟨x, hx, hpre⟩
  · exact cut_opening h hu hmem hin hin_ne _ _ _
  · have hx_ne : x ≠ body ++ closer channel := fun heq => hne (by rw [hx, heq])
    have hx' : p.pending = u ++ (opener ++ x) := by rw [hx, List.append_assoc]
    have hc := continues_blank_marker h hu (List.mem_cons_of_mem _ (List.mem_cons_of_mem _ hopener)) hx'
    obtain ⟨hlate, hsafe⟩ := cut_body (p := { p with pending := x, state := channel }) hopen hbody hpre hx_ne
      rest content reasoning
    refine ⟨hc.late.symm.trans hlate, fun _ => ?_⟩
    rw [hc.shown_eq, hx']
    have hprepend := hsafe.prepend (o := outputOf []) [.blank u, .marker opener]
    simpa [piecesText, Piece.text, outputOf] using hprepend

/-- An open channel is read. -/
theorem continues_open (h : p.skipsBlank = true) (hu : isBlank u = true) {channel : Channel} {opener body : Text}
    (hopener : (opener, channel) ∈ [(thinkOpen, Channel.think), (responseOpen, .response)])
    (hbody : ¬ framing <:+: body)
    (hp : p.pending = u ++ (opener ++ (body ++ (closer channel ++ v)))) :
    ∃ (d : List Delta) (q : Parser V), Continues d p q ∧
      outputOf d = onChannel channel body ∧ q.skipsBlank = true ∧
      q.pending = v := by
  have hopen : channel = .think ∨ channel = .response := by
    simp only [List.mem_cons, Prod.mk.injEq, List.not_mem_nil, or_false] at hopener
    exact hopener.imp And.right And.right
  have hc := continues_blank_marker h hu (List.mem_cons_of_mem _ (List.mem_cons_of_mem _ hopener)) hp
  set q : Parser V := { p with pending := body ++ (closer channel ++ v), state := channel } with hq
  have hcloses : dictGet q.transitions (closer channel) = some .between ∧ closer channel ≠ thinkOpen := by
    unfold transitions
    rcases hopen with rfl | rfl <;> exact ⟨rfl, by decide⟩
  have hfree : ∀ m ∈ q.markers, ¬ m <:+: body := fun m hm hin =>
    hbody ((channelMarkers_framing m (q.markers_subset hm)).isInfix.trans hin)
  have hbodyc := continues_body (p := q) hopen hcloses.1 hcloses.2 hfree rfl
  exact ⟨_, _, hc.trans hbodyc, outputOf_text (p := q) hopen body, rfl, rfl⟩

/-- Cut inside the tools, or before they are opened. -/
theorem cut_tools (h : p.skipsBlank = true) (hu : isBlank u = true) (calls : List (Call V))
    (hp : p.pending <+: u ++ (toolsOpen ++ (calls.flatMap Call.render ++ toolsClose)))
    (hne : p.pending ≠ u ++ (toolsOpen ++ (calls.flatMap Call.render ++ toolsClose))) (rest : List Piece)
    (content reasoning : Text) : p.runLate = false ∧
      (¬ BehindBlank (.blank u :: .marker toolsOpen :: rest) p.pending →
        Safe (.blank u :: .marker toolsOpen :: rest) content reasoning p.pending p.shown) := by
  rw [← List.append_assoc] at hp hne
  rcases prefix_append_split hp with ⟨hin, hin_ne⟩ | ⟨x, hx, hpre⟩
  · refine cut_opening h hu ?_ hin hin_ne _ _ _
    unfold markers
    rw [skip_transitions h]
    decide
  · have hx_ne : x ≠ calls.flatMap Call.render ++ toolsClose := fun heq => hne (by rw [hx, heq])
    rw [List.append_assoc] at hx
    have hc := continues_blank_marker h hu (by simp : (toolsOpen, Channel.tools) ∈ _) hx
    have hinside := (inside_calls (p := { p with pending := x, state := .tools }) calls rfl hpre hx_ne).of_continues hc
      Silent.nil
    exact ⟨hinside.late, fun _ => Safe.nothing hinside.shown_nil.1 hinside.shown_nil.2⟩

/-- A block that is cut, or read to its end. -/
theorem cut_block (h : p.skipsBlank = true) (hu : isBlank u = true) (b : Block V) (hcontent : ¬ framing <:+: b.content)
    (hreasoning : ¬ framing <:+: b.reasoning) {t : Text} (hp : p.pending <+: u ++ (b.render ++ t)) :
    (∀ (rest : List Piece) (content reasoning : Text), p.runLate = false ∧
      (¬ BehindBlank (.blank u :: (b.pieces ++ rest)) p.pending → Safe (.blank u :: (b.pieces ++ rest))
        (b.content ++ content) (b.reasoning ++ reasoning) p.pending p.shown)) ∨
    ∃ (d : List Delta) (q : Parser V), Continues d p q ∧ (outputOf d).content = b.content ∧
      (outputOf d).reasoning = b.reasoning ∧ q.skipsBlank = true ∧ p.pending = u ++ (b.render ++ q.pending) ∧
      q.pending <+: t := by
  rw [← List.append_assoc] at hp
  -- the cut is inside the block, or behind it
  rcases prefix_append_split hp with ⟨hin, hne⟩ | ⟨w, hw, hpre⟩
  · refine .inl fun rest content reasoning => ?_
    cases b with
    | think body =>
      have hopener : (thinkOpen, Channel.think) ∈ [(thinkOpen, Channel.think), (responseOpen, .response)] := by simp
      exact cut_open h hu hopener hreasoning hin hne rest content reasoning
    | response body =>
      have hopener : (responseOpen, Channel.response) ∈
        [(thinkOpen, Channel.think), (responseOpen, .response)] := by simp
      exact cut_open h hu hopener hcontent hin hne rest content reasoning
    | tools calls => exact cut_tools h hu calls hin hne _ content reasoning
  · right
    rw [List.append_assoc] at hw
    cases b with
    | think body =>
      have hw' : p.pending = u ++ (thinkOpen ++ (body ++ (closer .think ++ w))) := by
        rw [hw]
        simp [Block.render, closer]
      obtain ⟨d, q, hc, hd, hskip, rfl⟩ := continues_open h hu (by simp) hreasoning hw'
      exact ⟨d, q, hc, by rw [hd]; rfl, by rw [hd]; rfl, hskip, hw, hpre⟩
    | response body =>
      have hw' : p.pending = u ++ (responseOpen ++ (body ++ (closer .response ++ w))) := by
        rw [hw]
        simp [Block.render, closer]
      obtain ⟨d, q, hc, hd, hskip, rfl⟩ := continues_open h hu (by simp) hcontent hw'
      exact ⟨d, q, hc, by rw [hd]; rfl, by rw [hd]; rfl, hskip, hw, hpre⟩
    | tools calls =>
      have hw' : p.pending = u ++ (toolsOpen ++ (calls.flatMap Call.render ++ (toolsClose ++ w))) := by
        rw [hw]
        simp [Block.render]
      have hopen := continues_blank_marker h hu (by simp : (toolsOpen, Channel.tools) ∈ _) hw'
      obtain ⟨d, q, hc, hd, hskip, rfl⟩ := continues_calls_silent calls rfl rfl (p := { p with
        pending := calls.flatMap Call.render ++ (toolsClose ++ w), state := .tools })
      exact ⟨d, q, hopen.trans hc, hd.2, hd.1, hskip, hw, hpre⟩

/-- **What is shown of a message that is cut anywhere.** -/
theorem cut_blocks (blocks : List (Text × Block V)) {last : Text} (hlast : isBlank last = true)
    (hblank : ∀ b ∈ blocks, isBlank b.1 = true) (hcontent : ¬ framing <:+: contentOf blocks)
    (hreasoning : ¬ framing <:+: reasoningOf blocks) (h : p.skipsBlank = true)
    (hp : p.pending <+: blocks.flatMap (fun b => b.1 ++ b.2.render) ++ (last ++ (messageClose ++ endOfMessage))) :
    p.runLate = false ∧ (¬ BehindBlank (piecesOf blocks last) p.pending →
      Safe (piecesOf blocks last) (contentOf blocks) (reasoningOf blocks) p.pending p.shown) := by
  induction blocks generalizing p with
  | nil => exact cut_end h hlast hp [] []
  | cons b blocks ih =>
    rw [List.flatMap_cons, List.append_assoc, List.append_assoc] at hp
    have hpieces : piecesOf (b :: blocks) last = .blank b.1 :: (b.2.pieces ++ piecesOf blocks last) := by
      simp [piecesOf]
    have hsplit : contentOf (b :: blocks) = b.2.content ++ contentOf blocks ∧
        reasoningOf (b :: blocks) = b.2.reasoning ++ reasoningOf blocks := ⟨List.flatMap_cons, List.flatMap_cons⟩
    rw [hsplit.1] at hcontent
    rw [hsplit.2] at hreasoning
    have hfirst := List.prefix_append b.2.content (contentOf blocks)
    have hfirst' := List.prefix_append b.2.reasoning (reasoningOf blocks)
    have hrest := List.suffix_append b.2.content (contentOf blocks)
    have hrest' := List.suffix_append b.2.reasoning (reasoningOf blocks)
    rw [hpieces, hsplit.1, hsplit.2]
    rcases cut_block h (hblank b List.mem_cons_self) b.2 (fun hin => hcontent (hin.trans hfirst.isInfix))
        (fun hin => hreasoning (hin.trans hfirst'.isInfix)) hp with
          hcut | ⟨d, q, hc, hdc, hdr, hskip, hpending, hpre⟩
    · exact hcut _ _ _
    · obtain ⟨hlate, hsafe⟩ := ih (fun b hb => hblank b (List.mem_cons_of_mem _ hb))
        (fun hin => hcontent (hin.trans hrest.isInfix)) (fun hin => hreasoning (hin.trans hrest'.isInfix)) hskip hpre
      refine ⟨hc.late.symm.trans hlate, fun hnot => ?_⟩
      have hfront : p.pending = piecesText (.blank b.1 :: b.2.pieces) ++ q.pending := by
        rw [hpending, ← b.2.piecesText_pieces, ← List.append_assoc]
        rfl
      rw [hfront] at hnot ⊢
      rw [hc.shown_eq, ← hdc, ← hdr, ← List.cons_append]
      refine (hsafe fun hbehind => hnot ?_).prepend _
      rw [← List.cons_append]
      exact hbehind.prepend _

end Parser

/-! ## Every cut and every chunking -/

/-- Behind text without framing, whitespace and a `<` make none. -/
theorem framing_free_append {c t : Text} (hc : ¬ framing <:+: c) (ht : '|' ∉ t) : ¬ framing <:+: c ++ t := by
  rintro ⟨s, e, he⟩
  rcases prefix_append_split (s := s ++ framing) ⟨e, he⟩ with ⟨hin, -⟩ | ⟨v, hv, hvt⟩
  · exact hc ((List.suffix_append s framing).isInfix.trans hin.isInfix)
  · by_cases hnil : v = []
    · rw [hnil, List.append_nil] at hv
      exact hc (hv ▸ (List.suffix_append s framing).isInfix)
    · -- the bar is behind `c`
      have hlast : v.getLast? = some '|' := by
        rw [← List.getLast?_append_of_ne_nil c hnil, ← hv, framing, List.getLast?_append_of_ne_nil _ (by decide)]
        rfl
      exact ht (hvt.subset (List.mem_of_getLast? hlast))

theorem bar_notMem {u : Text} (hu : isBlank u = true) : '|' ∉ u ++ ['<'] := by
  intro hmem
  rcases List.mem_append.1 hmem with hin | hin
  · exact absurd (List.all_eq_true.1 hu '|' hin) (by decide)
  · exact absurd hin (by decide)

theorem Safe.framing_free {pieces : List Piece} {content reasoning t : Text} {o : Output}
    (h : Safe pieces content reasoning t o) (hcontent : ¬ framing <:+: content)
    (hreasoning : ¬ framing <:+: reasoning) :
    ¬ framing <:+: o.content ∧ ¬ framing <:+: o.reasoning := by
  constructor
  · rcases h.content with hpre | ⟨-, c, u, hc, hu, heq⟩
    · exact fun hin => hcontent (hin.trans hpre.isInfix)
    · rw [heq]
      exact framing_free_append (fun hin => hcontent (hin.trans hc.isInfix)) (bar_notMem hu)
  · rcases h.reasoning with hpre | ⟨-, r, hr, heq⟩
    · exact fun hin => hreasoning (hin.trans hpre.isInfix)
    · rw [heq]
      exact framing_free_append (fun hin => hreasoning (hin.trans hr.isInfix)) (by decide)

section main

variable {V : Type} [Json V] [WordChars]

/-- **A message that is cut off shows its own text only**, and at most a `<` behind it, unless the cut is inside a
marker behind whitespace. -/
theorem truncated_safe (m : Transcript V) {t : Text} (ht : t <+: m.render) {chunks : List Text}
    (hchunks : chunks.flatten = t) (hcut : ¬ BehindBlank m.pieces t) :
    ¬ framing <:+: (parseChunks V false chunks).content ∧ ¬ framing <:+: (parseChunks V false chunks).reasoning ∧
      Safe m.pieces m.content m.reasoning t (parseChunks V false chunks) := by
  have hcuts := Parser.cut_blocks (p := (Parser.new (V := V) false).append t) m.blocks m.last_blank
    m.blank m.content_free
    m.reasoning_free rfl ht
  obtain ⟨hlate, hsafe⟩ := hcuts
  have hparse : parseChunks V false chunks = ((Parser.new (V := V) false).append t).shown := by
    rw [parseChunks_eq V hlate hchunks, parseChunks_singleton]
    rfl
  rw [hparse]
  have hshown := hsafe hcut
  have hfree := hshown.framing_free m.content_free m.reasoning_free
  exact ⟨hfree.1, hfree.2, hshown⟩

end main

/-! ## A short message -/

attribute [local instance] jsonText asciiWords

def shortAnswer : Transcript Text where
  blocks := [([], .think "why".toList), ([], .response "so".toList)]
  last := []
  blank := by decide
  last_blank := rfl
  content_free := by decide
  reasoning_free := by decide

/-- The message up to `count` characters of the tag that closes the response. -/
def shortCut (count : ℕ) : Text :=
  thinkOpen ++ ("why".toList ++ (thinkClose ++ (responseOpen ++ ("so".toList ++ responseClose.take count))))

theorem truncated_safe_shortAnswer :
    shortCut 12 <+: shortAnswer.render ∧ [shortCut 12].flatten = shortCut 12 ∧
      ¬ BehindBlank shortAnswer.pieces (shortCut 12) ∧
      ¬ framing <:+: (parseChunks Text false [shortCut 12]).content ∧
      ¬ framing <:+: (parseChunks Text false [shortCut 12]).reasoning ∧
      Safe shortAnswer.pieces shortAnswer.content shortAnswer.reasoning (shortCut 12)
        (parseChunks Text false [shortCut 12]) := by
  have hpre : shortCut 12 <+: shortAnswer.render := by decide +kernel
  have hcut : ¬ BehindBlank shortAnswer.pieces (shortCut 12) := by
    rintro ⟨front, u, m, rest, x, heq, hu, -⟩
    have hmem : Piece.blank u ∈ shortAnswer.pieces := by
      rw [heq]
      exact List.mem_append_right _ List.mem_cons_self
    have hblank : shortAnswer.pieces = [.blank [], .marker thinkOpen, .other "why".toList,
      .marker thinkClose, .blank [],
        .marker responseOpen, .other "so".toList, .marker responseClose, .blank [], .marker messageClose,
        .other endOfMessage] := rfl
    rw [hblank] at hmem
    simp only [List.mem_cons, Piece.blank.injEq, reduceCtorEq, List.not_mem_nil, or_false, false_or, or_self] at hmem
    exact hu hmem
  exact ⟨hpre, rfl, hcut, truncated_safe shortAnswer hpre rfl hcut⟩

/-- Cut behind the first character of the tag, the answer ends with that character. -/
theorem lone_shown : ¬ ∀ (m : Transcript Text) (t : Text) (chunks : List Text), t <+: m.render →
    chunks.flatten = t →
    ¬ framing <:+: (parseChunks Text false chunks).content ∧
      ¬ framing <:+: (parseChunks Text false chunks).reasoning ∧
      (parseChunks Text false chunks).content <+: m.content ∧
        (parseChunks Text false chunks).reasoning <+: m.reasoning := by
  intro hall
  obtain ⟨-, -, hcontent, -⟩ := hall shortAnswer (shortCut 1) [shortCut 1] (by decide +kernel) rfl
  have hshown : (parseChunks Text false [shortCut 1]).content = "so<".toList := by decide +kernel
  rw [hshown] at hcontent
  exact absurd hcontent (by decide)

end NanoEngine.Kimi
