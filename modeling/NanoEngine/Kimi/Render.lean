import NanoEngine.Kimi.Chunks

/-!
# NanoEngine.Kimi.Render — a rendered message is parsed back

* `Message.render` writes a message the way the chat template does: attribute values escaped, string arguments raw,
  other arguments as JSON.  A body is free of the markers that end its own channel and of nothing else.
* Every piece of the rendering is some rounds of the parser (`Continues`), and the pieces are put together.
* No piece has a late think opener, so every way of cutting the rendering gives the same.
-/

namespace NanoEngine.Kimi

open Markers

/-! ## Attributes -/

def escapeChar (c : Char) : Text := if c = '&' then "&amp;".toList else if c = '"' then "&quot;".toList else [c]

/-- The escaping of an attribute value, which `unescape` undoes. -/
def escape (text : Text) : Text := text.flatMap escapeChar

/-- `key="value"`. -/
def renderAttr (key value : Text) : Text := key ++ ('=' :: '"' :: (escape value ++ ['"']))

theorem escape_cons (c : Char) (t : Text) : escape (c :: t) = escapeChar c ++ escape t := rfl

theorem quote_notMem_escape (t : Text) : '"' ∉ escape t := by
  intro h
  obtain ⟨c, -, hc⟩ := List.mem_flatMap.1 h
  unfold escapeChar at hc
  split at hc
  · revert hc
    decide
  · split at hc
    · revert hc
      decide
    · rename_i hquote
      exact hquote (List.mem_singleton.1 hc).symm

/-- With only the ampersand escaped. -/
def escapeAmp (text : Text) : Text := text.flatMap (fun c => if c = '&' then "&amp;".toList else [c])

theorem replaceFrom_cons {old new t : Text} {c : Char} (h : ¬ old <+: c :: t) :
    replaceFrom old new 0 (c :: t) = c :: replaceFrom old new 0 t := by
  rw [replaceFrom, if_neg (by rwa [List.isPrefixOf_iff_prefix])]

/-- The parser restores the quotes first … -/
theorem replace_quot (t : Text) : replace "&quot;".toList "\"".toList (escape t) = escapeAmp t := by
  unfold replace
  induction t with
  | nil => rfl
  | cons c t ih =>
    rw [escape_cons]
    unfold escapeChar escapeAmp
    by_cases hamp : c = '&'
    · subst hamp
      simp only [if_true, List.flatMap_cons]
      change replaceFrom _ _ 0 ('&' :: 'a' :: 'm' :: 'p' :: ';' :: escape t) = _
      rw [replaceFrom_cons (by simp), replaceFrom_cons (by simp), replaceFrom_cons (by simp),
        replaceFrom_cons (by simp),
        replaceFrom_cons (by simp), ih]
      rfl
    · rw [if_neg hamp, List.flatMap_cons, if_neg hamp]
      by_cases hquote : c = '"'
      · subst hquote
        rw [if_pos rfl]
        change replaceFrom _ _ 0 ('&' :: 'q' :: 'u' :: 'o' :: 't' :: ';' :: escape t) = _
        rw [replaceFrom,
          if_pos (by rw [List.isPrefixOf_iff_prefix]; exact List.prefix_append "&quot;".toList (escape t))]
        change "\"".toList ++ replaceFrom _ _ 0 (escape t) = _
        rw [ih]
        rfl
      · rw [if_neg hquote, List.singleton_append, replaceFrom_cons (by simp [Ne.symm hamp]), ih]
        rfl

/-- … and the ampersands then. -/
theorem replace_amp (t : Text) : replace "&amp;".toList "&".toList (escapeAmp t) = t := by
  unfold replace
  induction t with
  | nil => rfl
  | cons c t ih =>
    unfold escapeAmp
    rw [List.flatMap_cons]
    by_cases hamp : c = '&'
    · subst hamp
      rw [if_pos rfl]
      change replaceFrom _ _ 0 ('&' :: 'a' :: 'm' :: 'p' :: ';' :: escapeAmp t) = _
      rw [replaceFrom,
        if_pos (by rw [List.isPrefixOf_iff_prefix]; exact List.prefix_append "&amp;".toList (escapeAmp t))]
      change "&".toList ++ replaceFrom _ _ 0 (escapeAmp t) = _
      rw [ih]
      rfl
    · rw [if_neg hamp, List.singleton_append, replaceFrom_cons (by simp [Ne.symm hamp])]
      exact congrArg _ ih

/-- **What the template escapes, the parser restores.** -/
theorem unescape_escape (t : Text) : unescape (escape t) = t := by
  unfold unescape
  rw [replace_quot, replace_amp]

/-! ## Separators -/

theorem prefix_of_prefix_escape {m : Text} (hm : '&' ∉ m) {t : Text} (h : m <+: escape t) : m <+: t := by
  induction m generalizing t with
  | nil => exact List.nil_prefix
  | cons a m ih =>
    rw [List.mem_cons, not_or] at hm
    cases t with
    | nil => exact absurd (List.prefix_nil.1 h) (List.cons_ne_nil a m)
    | cons c t =>
      rw [escape_cons] at h
      unfold escapeChar at h
      split at h
      · exact absurd (List.cons_prefix_cons.1 h).1.symm hm.1
      · split at h
        · exact absurd (List.cons_prefix_cons.1 h).1.symm hm.1
        · rw [List.singleton_append, List.cons_prefix_cons] at h
          obtain ⟨rfl, h⟩ := h
          exact List.cons_prefix_cons.2 ⟨rfl, ih hm.2 h⟩

/-- Escaping makes no separator. -/
theorem sepTag_infix_of_escape {t : Text} (h : sepTag <:+: escape t) : sepTag <:+: t := by
  induction t with
  | nil => exact h
  | cons c t ih =>
    have htail : sepTag <:+: escape t → sepTag <:+: c :: t := fun h => (ih h).trans (List.suffix_cons c t).isInfix
    have hskip : ∀ {a : Char} {s : Text}, a ≠ '<' → sepTag <:+: a :: s → sepTag <:+: s := by
      intro a s ha hin
      rcases List.infix_cons_iff.1 hin with hp | hin
      · exact absurd (List.cons_prefix_cons.1 hp).1.symm ha
      · exact hin
    rw [escape_cons] at h
    unfold escapeChar at h
    split at h
    · exact htail (hskip (by decide) (hskip (by decide) (hskip (by decide) (hskip (by decide) (hskip (by decide) h)))))
    · split at h
      · exact htail (hskip (by decide) (hskip (by decide) (hskip (by decide) (hskip (by decide)
          (hskip (by decide) (hskip (by decide) h))))))
      · rename_i hamp hquote
        rcases List.infix_cons_iff.1 h with hp | hin
        · have heq : c :: escape t = escape (c :: t) := by
            rw [escape_cons, escapeChar, if_neg hamp, if_neg hquote]
            rfl
          change sepTag <+: c :: escape t at hp
          rw [heq] at hp
          exact (prefix_of_prefix_escape (by decide) hp).isInfix
        · exact htail hin

/-- Up to the closing quote of an attribute there is no separator. -/
theorem skips_escape {value : Text} (h : ¬ sepTag <:+: value) (t : Text) :
    Skips [sepTag] (escape value) ('"' :: t) := by
  refine Skips.of_free (m := ['"']) (by decide) (fun m hm => ?_) t
  obtain rfl := List.mem_singleton.1 hm
  exact ⟨by decide, fun hin => h (sepTag_infix_of_escape hin)⟩

theorem find_of_skips {m u v : Text} (hm : Apart [m]) (hs : Skips [m] u (m ++ v)) :
    find m (u ++ (m ++ v)) = some u.length := by
  have hfirst := findFirst_of_skips hm List.mem_cons_self hs
  rw [findFirst_singleton] at hfirst
  obtain ⟨i, hi, heq⟩ := Option.map_eq_some_iff.1 hfirst
  rw [hi, (Prod.mk.inj heq).1]

/-! ## Headers -/

theorem takeWhile_append_cons {q : Char → Bool} {u t : Text} {c : Char}
    (hu : ∀ a ∈ u, q a = true) (hc : q c = false) :
    (u ++ c :: t).takeWhile q = u ∧ (u ++ c :: t).dropWhile q = c :: t := by
  constructor
  · rw [List.takeWhile_append_of_pos hu, List.takeWhile_cons_of_neg (by simp [hc]), List.append_nil]
  · rw [List.dropWhile_append_of_pos hu, List.dropWhile_cons_of_neg (by simp [hc])]

theorem strip_of_ends {a c : Char} {u : Text} (ha : isSpace a = false) (hc : isSpace c = false) :
    strip (a :: (u ++ [c])) = a :: (u ++ [c]) := by
  unfold strip
  rw [List.dropWhile_cons_of_neg (by simp [ha]), ← List.cons_append, List.reverse_append, List.reverse_singleton,
    List.singleton_append, List.dropWhile_cons_of_neg (by simp [hc]), List.reverse_cons, List.reverse_reverse]

theorem splitWord_cons {a b : Char} {u raw : Text} (ha : isSpace a = false) (hu : ∀ c ∈ u, isSpace c = false)
    (hb : isSpace b = false) : splitWord (a :: (u ++ ' ' :: b :: raw)) = some (a :: u, b :: raw) := by
  unfold splitWord
  have hword : ∀ c ∈ a :: u, (fun c => !isSpace c) c = true := by
    intro c hc
    rcases List.mem_cons.1 hc with rfl | hc
    · simp [ha]
    · simp [hu c hc]
  have hcut := takeWhile_append_cons (t := b :: raw) (c := ' ') hword (by decide)
  rw [List.cons_append] at hcut
  simp only [List.dropWhile_cons_of_neg (show ¬ isSpace a = true by simp [ha]), List.isEmpty_cons, Bool.false_eq_true,
    if_false, hcut.1, hcut.2]
  rw [List.dropWhile_cons_of_pos (by decide), List.dropWhile_cons_of_neg (by simp [hb])]

section attrs

variable [WordChars]

theorem isWordChar_of_isAlphanum {c : Char} (h : c.isAlphanum = true) : isWordChar c = true := by
  unfold isWordChar
  rw [h]
  rfl

theorem attrAt_renderAttr {key : Text} (hkey : ∀ c ∈ key, c.isAlphanum = true) (hne : key ≠ []) (value t : Text) :
    attrAt (renderAttr key value ++ t) = some (key, escape value, t) := by
  have hraw : renderAttr key value ++ t = key ++ '=' :: '"' :: (escape value ++ '"' :: t) := by
    unfold renderAttr
    simp
  have hname := takeWhile_append_cons (t := '"' :: (escape value ++ '"' :: t)) (c := '=')
    (fun c hc => isWordChar_of_isAlphanum (hkey c hc)) rfl
  have hvalue := takeWhile_append_cons (q := fun c => decide (c ≠ '"')) (u := escape value) (t := t) (c := '"')
    (fun a ha => decide_eq_true (fun heq => quote_notMem_escape value (heq ▸ ha))) (by decide)
  have hempty : key.isEmpty = false := by simpa using hne
  unfold attrAt
  rw [hraw, hname.1, hname.2]
  simp only [hvalue.1, hvalue.2, hempty, Bool.false_eq_true, if_false]

theorem attrsFrom_renderAttr {key : Text} (hkey : ∀ c ∈ key, c.isAlphanum = true) (hne : key ≠ [])
    (value t : Text) (fuel : ℕ) (d : List (Text × Text)) :
    attrsFrom (fuel + 1) (renderAttr key value ++ t) d = attrsFrom fuel t (dictSet d key value) := by
  have hat := attrAt_renderAttr hkey hne value t
  cases hraw : renderAttr key value ++ t with
  | nil =>
    rw [hraw] at hat
    cases hat
  | cons c raw =>
    rw [hraw] at hat
    rw [attrsFrom, hat]
    dsimp only
    rw [unescape_escape]

theorem attrsFrom_space (t : Text) (fuel : ℕ) (d : List (Text × Text)) :
    attrsFrom (fuel + 1) (' ' :: t) d = attrsFrom fuel t d := rfl

theorem attrsFrom_nil (fuel : ℕ) (d : List (Text × Text)) : attrsFrom fuel [] d = d := by
  cases fuel <;> rfl

/-- The attribute of a `call` tag is read back. -/
theorem attrs_tool (name : Text) : attrs (renderAttr "tool".toList name) = [("tool".toList, name)] := by
  unfold attrs
  obtain ⟨fuel, hfuel⟩ : ∃ fuel, (renderAttr "tool".toList name).length = fuel + 1 := ⟨_, rfl⟩
  have hrender := @attrsFrom_renderAttr _ "tool".toList (List.all_eq_true.1 (by decide)) (by decide) name [] fuel []
  rw [List.append_nil] at hrender
  rw [hfuel, hrender, attrsFrom_nil]
  rfl

/-- Both attributes of an `argument` tag are read back. -/
theorem attrs_argument (key type : Text) : attrs (renderAttr "key".toList key ++ ' ' :: renderAttr "type".toList type) =
    [("key".toList, key), ("type".toList, type)] := by
  unfold attrs
  obtain ⟨fuel, hfuel⟩ : ∃ fuel, (renderAttr "key".toList key ++ ' ' ::
    renderAttr "type".toList type).length = fuel + 3 :=
    ⟨_, by rw [List.length_append, List.length_cons]; rfl⟩
  have hrender := @attrsFrom_renderAttr _ "type".toList (List.all_eq_true.1 (by decide)) (by decide) type []
    fuel [("key".toList, key)]
  rw [List.append_nil] at hrender
  rw [hfuel, attrsFrom_renderAttr (List.all_eq_true.1 (by decide)) (by decide), attrsFrom_space]
  exact hrender.trans (attrsFrom_nil fuel _)

end attrs

/-! ## Messages -/

/-- The markers of the think channel before it has put out anything. -/
def thinkMarkers : List Text := [messageClose, endOfMessage, toolsOpen, thinkClose, responseOpen, thinkOpen]

def responseMarkers : List Text := [messageClose, endOfMessage, toolsOpen, responseClose]

section message

variable (V : Type) [Json V]

/-- An argument of a call: a string is written as it is, every other value as JSON. -/
structure Argument where
  key : Text
  type : Text
  body : Text
  value : V
  key_ne : key ≠ []
  key_free : ¬ sepTag <:+: key
  type_free : ¬ sepTag <:+: type
  body_free : ¬ argumentClose <:+: body
  written : type = "string".toList ∧ value = Json.string body ∨ type ≠ "string".toList ∧ body = Json.dumps value

/-- A tool call: arguments under distinct keys, and names the header can carry. -/
structure Call where
  name : Text
  arguments : List (Argument V)
  name_ne : name ≠ []
  name_free : ¬ sepTag <:+: name
  keys_nodup : (arguments.map (·.key)).Nodup

/-- A message of the template; each part may be absent. -/
structure Message where
  reasoning : Option Text
  response : Option Text
  tools : Option (List (Call V))
  reasoning_free : ∀ r ∈ reasoning, ∀ m ∈ thinkMarkers, ¬ m <:+: r
  response_free : ∀ c ∈ response, ∀ m ∈ responseMarkers, ¬ m <:+: c

variable {V}

def Argument.header (a : Argument V) : Text :=
  "argument".toList ++ ' ' :: (renderAttr "key".toList a.key ++ ' ' :: renderAttr "type".toList a.type)

def Argument.render (a : Argument V) : Text := openTag ++ (a.header ++ (sepTag ++ (a.body ++ argumentClose)))

def Call.header (c : Call V) : Text := "call".toList ++ ' ' :: renderAttr "tool".toList c.name

def Call.render (c : Call V) : Text :=
  openTag ++ (c.header ++ (sepTag ++ (c.arguments.flatMap Argument.render ++ (closeTag ++ ("call".toList ++ sepTag)))))

/-- The call a client gets. -/
def Call.toolCall (c : Call V) : ToolCall :=
  ⟨c.name, Json.dumps (Json.object (c.arguments.map (fun a => (a.key, a.value))))⟩

namespace Message

def renderThink (m : Message V) : Text := (m.reasoning.map (fun r => thinkOpen ++ (r ++ thinkClose))).getD []

def renderResponse (m : Message V) : Text := (m.response.map (fun c => responseOpen ++ (c ++ responseClose))).getD []

def renderTools (m : Message V) : Text :=
  (m.tools.map (fun calls => toolsOpen ++ (calls.flatMap Call.render ++ toolsClose))).getD []

/-- The text of a message: its parts in order, and the closing tag. -/
def render (m : Message V) : Text := m.renderThink ++ (m.renderResponse ++ (m.renderTools ++ messageClose))

/-- The think opener was a part of the prompt. -/
def renderOpen (m : Message V) : Text :=
  m.reasoning.getD [] ++ (thinkClose ++ (m.renderResponse ++ (m.renderTools ++ messageClose)))

/-- What the message says, as the parser reports it piece by piece … -/
def output (m : Message V) : Output :=
  ⟨m.reasoning.getD [], m.response.getD [], (m.tools.getD []).map Call.toolCall⟩

/-- … and as `parse_full` returns it. -/
def parsed (m : Message V) : ParsedOutput := ⟨orNone m.output.content, orNone m.output.reasoning, m.output.calls⟩

end Message

end message

/-! ## Rounds -/

namespace Parser

variable {V : Type} [Json V] [WordChars] {p : Parser V} {v : Text}

theorem Continues.trans {d e : List Delta} {p q r : Parser V} (h : Continues d p q) (h' : Continues e q r) :
    Continues (d ++ e) p r where
  output := by rw [h.output, h'.output, outputOf_append, Output.append_assoc]
  final := h.final.trans h'.final
  late := h'.late.trans h.late

/-- A tag of the containers. -/
theorem continues_tag {m header name raw : Text} (h : p.state = .tools ∨ p.state = .call)
    (hm : m = openTag ∨ m = closeTag)
    (hp : p.pending = m ++ (header ++ (sepTag ++ v))) (hs : Skips [sepTag] header (sepTag ++ v))
    (hsplit : splitWord (strip header) = some (name, raw)) :
    Continues ({ p with pending := v }.tag m name raw).1 p ({ p with pending := v }.tag m name raw).2 := by
  have hmem : m ∈ tagMarkers := by
    rcases hm with rfl | rfl <;> decide
  have hne : p.pending ≠ [] := by
    rw [hp]
    exact List.append_ne_nil_of_left_ne_nil (tagMarkers_apart m hmem).1 _
  have hend : m ≠ endOfMessage := by
    rcases hm with rfl | rfl <;> decide
  have hfind := find_of_skips (by decide) hs
  have hdrop : (header ++ (sepTag ++ v)).drop (header.length + sepTag.length) = v := by
    rw [← List.append_assoc, ← List.length_append, List.drop_left]
  have hstep : p.step = (({ p with pending := v }.tag m name raw).1, true,
    ({ p with pending := v }.tag m name raw).2) := by
    rw [step_container h, p.containerStep_found (u := []) hmem hp trivial]
    unfold tagRound
    rw [if_neg hend, hfind]
    dsimp only
    rw [List.take_left, hsplit, hdrop]
  have hstate : p.state ≠ .think := by
    rcases h with h | h <;> rw [h] <;> decide
  have hc := Continues.of_progress hne (by rw [hstep]) (opensLate_of_state hstate)
  rwa [hstep] at hc

omit [WordChars] in
theorem split_argument (a : Argument V) : splitWord (strip a.header) =
    some ("argument".toList, renderAttr "key".toList a.key ++ ' ' :: renderAttr "type".toList a.type) := by
  have hends : a.header = 'a' :: ("rgument ".toList ++ renderAttr "key".toList a.key ++ ' ' ::
    ("type=\"".toList ++ escape a.type)
      ++ ['"']) := by
    unfold Argument.header renderAttr
    simp
  have hword : a.header = 'a' :: ("rgument".toList ++ ' ' :: 'k' :: ("ey=\"".toList ++ escape a.key ++
      '"' :: ' ' :: renderAttr "type".toList a.type)) := by
    unfold Argument.header renderAttr
    simp
  have hname : "rgument".toList.all (fun c => !isSpace c) = true := by decide
  rw [hends, strip_of_ends (by decide) (by decide), ← hends, hword,
    splitWord_cons (by decide) (fun c hc => by simpa using List.all_eq_true.1 hname c hc) (by decide)]
  simp [renderAttr]

omit [WordChars] in
theorem split_call (c : Call V) : splitWord (strip c.header) =
    some ("call".toList, renderAttr "tool".toList c.name) := by
  have hends : c.header = 'c' :: ("all tool=\"".toList ++ escape c.name ++ ['"']) := by
    unfold Call.header renderAttr
    simp
  have hword : c.header = 'c' :: ("all".toList ++ ' ' :: 't' :: ("ool=\"".toList ++ escape c.name ++ ['"'])) := by
    unfold Call.header renderAttr
    simp
  have hname : "all".toList.all (fun c => !isSpace c) = true := by decide
  rw [hends, strip_of_ends (by decide) (by decide), ← hends, hword,
    splitWord_cons (by decide) (fun c hc => by simpa using List.all_eq_true.1 hname c hc) (by decide)]
  simp [renderAttr]

omit [Json V] [WordChars] in
/-- Up to the end of an attribute there is no separator. -/
theorem skips_renderAttr {before key value : Text} (hbefore : ∀ i < (before ++ key ++ ['=', '"']).length,
    Dead [sepTag] ((before ++ key ++ ['=', '"']).drop i)) (h : ¬ sepTag <:+: value) (t : Text) :
    Skips [sepTag] (before ++ renderAttr key value) t := by
  have heq : before ++ renderAttr key value = (before ++ key ++ ['=', '"']) ++ (escape value ++ ['"']) := by
    unfold renderAttr
    simp
  rw [heq, Skips.append_left, Skips.append_left (u := escape value)]
  exact ⟨Skips.of_dead hbefore _, skips_escape h t, Skips.of_dead (by decide) t⟩

omit [WordChars] in
theorem skips_argument (a : Argument V) (t : Text) : Skips [sepTag] a.header t := by
  have heq : a.header = ("argument ".toList ++ renderAttr "key".toList a.key) ++
    (" ".toList ++ renderAttr "type".toList a.type) := by
    unfold Argument.header
    simp
  rw [heq, Skips.append_left]
  exact ⟨skips_renderAttr (by decide) a.key_free _, skips_renderAttr (by decide) a.type_free _⟩

omit [WordChars] in
theorem skips_call (c : Call V) (t : Text) : Skips [sepTag] c.header t := by
  have heq : c.header = "call ".toList ++ renderAttr "tool".toList c.name := by
    unfold Call.header
    simp
  rw [heq]
  exact skips_renderAttr (by decide) c.name_free _

/-! ### The containers -/

omit [WordChars] in
theorem argumentValue_render (hjson : ∀ x : V, Json.loads (Json.dumps x) = some x) (a : Argument V)
    (hattrs : p.argumentAttrs = [("key".toList, a.key), ("type".toList, a.type)]) :
      p.argumentValue a.body = a.value := by
  have htype : (dictGet p.argumentAttrs "type".toList).getD "string".toList = a.type := by
    rw [hattrs]
    rfl
  unfold argumentValue
  rw [htype]
  rcases a.written with ⟨hstring, hvalue⟩ | ⟨hother, hbody⟩
  · rw [if_neg (not_not_intro hstring), hvalue]
  · rw [if_pos hother, hbody, hjson]
    rfl

theorem continues_argument_tag (h : p.state = .call) (a : Argument V)
    (hp : p.pending = openTag ++ (a.header ++ (sepTag ++ v))) : Continues [] p { p with
      pending := v
      argumentAttrs := [("key".toList, a.key), ("type".toList, a.type)]
      argumentText := []
      state := .argument } := by
  have htag := continues_tag (.inr h) (.inl rfl) hp (skips_argument a _) (split_argument a)
  unfold tag at htag
  rwa [if_neg (by decide), if_pos ⟨h, rfl, rfl⟩, attrs_argument] at htag

theorem continues_call_tag (h : p.state = .tools) (c : Call V)
    (hp : p.pending = openTag ++ (c.header ++ (sepTag ++ v))) :
    Continues [] p { p with pending := v, callName := c.name, arguments := [], state := .call } := by
  have htag := continues_tag (.inl h) (.inl rfl) hp (skips_call c _) (split_call c)
  unfold tag at htag
  rwa [if_pos ⟨rfl, rfl⟩, attrs_tool] at htag

theorem continues_call_close (h : p.state = .call) (hname : p.callName ≠ [])
    (hp : p.pending = closeTag ++ ("call".toList ++ (sepTag ++ v))) :
    Continues [.toolCall ⟨p.callName, Json.dumps (Json.object p.arguments)⟩] p
      { p with pending := v, state := .tools, callName := [], arguments := [] } := by
  have hclose := continues_tag (.inr h) (.inr rfl) hp (Skips.of_dead (by decide) _)
    (show splitWord (strip "call".toList) = some ("call".toList, []) by decide)
  unfold tag at hclose
  rwa [if_neg (by decide), if_neg (fun heq => absurd heq.2.1 (by decide)), if_pos ⟨h, rfl, rfl⟩,
    if_neg (by simpa using hname)] at hclose

theorem continues_tools_close (h : p.state = .tools) (hp : p.pending = closeTag ++ ("tools".toList ++ (sepTag ++ v))) :
    Continues [] p { p with pending := v, state := .between, callName := [], arguments := [] } := by
  have hclose := continues_tag (.inl h) (.inr rfl) hp (Skips.of_dead (by decide) _)
    (show splitWord (strip "tools".toList) = some ("tools".toList, []) by decide)
  unfold tag at hclose
  rwa [if_neg (by decide), if_neg (fun heq => absurd heq.2.1 (by decide)),
    if_neg (fun heq => absurd heq.2.2 (by decide)),
    if_pos ⟨rfl, rfl⟩] at hclose

/-- An argument is set, whatever its value. -/
theorem continues_argument_value (h : p.state = .call) (a : Argument V) (hp : p.pending = a.render ++ v) :
    ∃ q : Parser V, Continues [] p q ∧ q.state = .call ∧ q.pending = v ∧ q.callName = p.callName ∧
      ∃ value, q.arguments = dictSet p.arguments a.key value ∧
        ((∀ x : V, Json.loads (Json.dumps x) = some x) → value = a.value) := by
  have hp' : p.pending = openTag ++ (a.header ++ (sepTag ++ (a.body ++ (argumentClose ++ v)))) := by
    rw [hp]
    unfold Argument.render
    simp only [List.append_assoc]
  have htag := continues_argument_tag h a hp'
  let q : Parser V := { p with
    pending := a.body ++ (argumentClose ++ v)
    argumentAttrs := [("key".toList, a.key), ("type".toList, a.type)]
    argumentText := []
    state := .argument }
  have hskips : Skips [argumentClose] a.body (argumentClose ++ v) := by
    refine Skips.of_free (m := argumentClose)
      (fun m hm => (argumentClose_apart _ List.mem_cons_self).2 m hm |>.2) (fun m hm => ?_) v
    obtain rfl := List.mem_singleton.1 hm
    exact ⟨by decide, a.body_free⟩
  have hstep := (step_argument (p := q) rfl).trans (q.argumentStep_found rfl hskips)
  have hkey : (dictGet q.argumentAttrs "key".toList).getD [] = a.key := rfl
  have hne : q.pending ≠ [] :=
    List.append_ne_nil_of_right_ne_nil a.body (List.append_ne_nil_of_left_ne_nil (by decide) v)
  have hstate : q.state ≠ .think := fun heq => by cases heq
  have hbody := Continues.of_progress hne (by rw [hstep]) (opensLate_of_state hstate)
  rw [hstep] at hbody
  refine ⟨_, htag.trans hbody, rfl, rfl, rfl, q.argumentValue a.body, ?_,
    fun hjson => argumentValue_render (p := q) hjson a rfl⟩
  dsimp only
  rw [hkey, if_neg (by simpa using a.key_ne), List.nil_append]

section containers

variable (hjson : ∀ x : V, Json.loads (Json.dumps x) = some x)
include hjson

/-- A whole argument is read, and joins those of the call. -/
theorem continues_argument (h : p.state = .call) (a : Argument V) (hp : p.pending = a.render ++ v)
    (hnew : ∀ e ∈ p.arguments, e.1 ≠ a.key) :
      ∃ q : Parser V, Continues [] p q ∧ q.state = .call ∧ q.pending = v ∧
      q.callName = p.callName ∧ q.arguments = p.arguments ++ [(a.key, a.value)] := by
  obtain ⟨q, hc, hstate, hpending, hname, value, harguments, hvalue⟩ := continues_argument_value h a hp
  have hset : dictSet p.arguments a.key a.value = p.arguments ++ [(a.key, a.value)] := by
    unfold dictSet
    rw [if_neg]
    simp only [List.any_eq_true, decide_eq_true_eq, not_exists, not_and]
    exact hnew
  rw [hvalue hjson, hset] at harguments
  exact ⟨q, hc, hstate, hpending, hname, harguments⟩

/-- The arguments of a call, one after the other. -/
theorem continues_arguments (arguments : List (Argument V)) (h : p.state = .call)
    (hp : p.pending = arguments.flatMap Argument.render ++ v)
    (hnew : (p.arguments.map (·.1) ++ arguments.map (·.key)).Nodup) :
      ∃ q : Parser V, Continues [] p q ∧ q.state = .call ∧
      q.pending = v ∧ q.callName = p.callName ∧
        q.arguments = p.arguments ++ arguments.map (fun a => (a.key, a.value)) := by
  induction arguments generalizing p with
  | nil => exact ⟨p, Continues.refl p, h, hp, rfl, by simp⟩
  | cons a arguments ih =>
    rw [List.flatMap_cons, List.append_assoc] at hp
    have hfresh : ∀ e ∈ p.arguments, e.1 ≠ a.key := fun e he =>
      (List.nodup_append.1 hnew).2.2 e.1 (List.mem_map_of_mem he) a.key List.mem_cons_self
    obtain ⟨q, hc, hstate, hpending, hname, harguments⟩ := continues_argument hjson h a hp hfresh
    have hnodup : (q.arguments.map (·.1) ++ arguments.map (·.key)).Nodup := by
      rw [harguments, List.map_append, List.append_assoc]
      exact hnew
    obtain ⟨q', hc', hstate', hpending', hname', harguments'⟩ := ih hstate hpending hnodup
    refine ⟨q', hc.trans hc', hstate', hpending', hname'.trans hname, ?_⟩
    rw [harguments', harguments, List.append_assoc]
    rfl

/-- A whole call is read and reported once, at its closing tag. -/
theorem continues_call (h : p.state = .tools) (c : Call V) (hp : p.pending = c.render ++ v) :
    ∃ q : Parser V, Continues [.toolCall c.toolCall] p q ∧ q.state = .tools ∧ q.pending = v := by
  have hp' : p.pending = openTag ++ (c.header ++ (sepTag ++ (c.arguments.flatMap Argument.render ++
      (closeTag ++ ("call".toList ++ (sepTag ++ v)))))) := by
    rw [hp]
    unfold Call.render
    simp only [List.append_assoc]
  have htag := continues_call_tag h c hp'
  obtain ⟨q, hc, hstate, hpending, hname, harguments⟩ := continues_arguments hjson c.arguments rfl rfl
    (by simpa using c.keys_nodup) (p := { p with
      pending := c.arguments.flatMap Argument.render ++ (closeTag ++ ("call".toList ++ (sepTag ++ v)))
      callName := c.name
      arguments := []
      state := .call })
  have hclose := continues_call_close hstate (by rw [hname]; exact c.name_ne) hpending
  rw [hname, harguments] at hclose
  exact ⟨_, (htag.trans hc).trans hclose, rfl, rfl⟩

/-- The calls of a section, one after the other. -/
theorem continues_calls (calls : List (Call V)) (h : p.state = .tools)
    (hp : p.pending = calls.flatMap Call.render ++ v) :
    ∃ q : Parser V, Continues (calls.map (fun c => .toolCall c.toolCall)) p q ∧
      q.state = .tools ∧ q.pending = v := by
  induction calls generalizing p with
  | nil => exact ⟨p, Continues.refl p, h, hp⟩
  | cons c calls ih =>
    rw [List.flatMap_cons, List.append_assoc] at hp
    obtain ⟨q, hc, hstate, hpending⟩ := continues_call hjson h c hp
    obtain ⟨q', hc', hstate', hpending'⟩ := ih hstate hpending
    exact ⟨q', hc.trans hc', hstate', hpending'⟩

end containers

/-! ### The channels -/

omit [Json V] [WordChars] in
/-- Between the channels every marker is known. -/
theorem skip_transitions (h : p.skipsBlank = true) : p.transitions =
    [(messageClose, .done), (endOfMessage, .done), (toolsOpen, .tools), (thinkOpen, .think), (thinkClose, .between),
      (responseOpen, .response), (responseClose, .between)] := by
  unfold skipsBlank at h
  rw [Bool.or_eq_true, decide_eq_true_eq, decide_eq_true_eq] at h
  unfold transitions
  rcases h with h | h <;> rw [h] <;> rfl

omit [Json V] [WordChars] in
theorem state_ne_of_skipsBlank (h : p.skipsBlank = true) : p.state ≠ .think := by
  intro heq
  unfold skipsBlank at h
  rw [heq] at h
  cases h

omit [Json V] [WordChars] in
/-- Every marker of the channels begins with `<`. -/
theorem skips_of_notMem {u : Text} (hu : '<' ∉ u) (t : Text) : Skips p.markers u t := by
  have hhead : ∀ m ∈ channelMarkers, m.head? = some '<' := by decide
  induction u with
  | nil => trivial
  | cons a u ih =>
    rw [List.mem_cons, not_or] at hu
    refine ⟨fun m hm => ?_, ih hu.2⟩
    have hm := hhead m (p.markers_subset hm)
    cases m with
    | nil => cases hm
    | cons b m =>
      obtain rfl : b = '<' := Option.some.inj hm
      exact ⟨fun hp => hu.1 (List.cons_prefix_cons.1 hp).1, fun hp => hu.1 (List.cons_prefix_cons.1 hp).1.symm⟩

omit [Json V] [WordChars] in
theorem notMem_of_isBlank {u : Text} (hu : isBlank u = true) : '<' ∉ u := fun hmem =>
  absurd (List.all_eq_true.1 hu '<' hmem) (by decide)

/-- A marker between the channels, behind whitespace. -/
theorem continues_blank_marker (h : p.skipsBlank = true) {u m : Text} {target : Channel} (hu : isBlank u = true)
    (hm : (m, target) ∈ [(messageClose, Channel.done), (toolsOpen, .tools), (thinkOpen, .think),
      (responseOpen, .response)])
    (hp : p.pending = u ++ (m ++ v)) : Continues [] p { p with pending := v, state := target } := by
  have hmem : m ∈ p.markers ∧ dictGet p.transitions m = some target ∧ m ≠ [] := by
    unfold markers
    rw [skip_transitions h]
    simp only [List.mem_cons, List.not_mem_nil, or_false, Prod.mk.injEq] at hm
    rcases hm with ⟨rfl, rfl⟩ | ⟨rfl, rfl⟩ | ⟨rfl, rfl⟩ | ⟨rfl, rfl⟩ <;> decide
  have htext : p.text u = ([], p) := by
    unfold text
    by_cases hnil : u.isEmpty
    · rw [if_pos hnil]
    · rw [if_neg hnil, if_neg (state_ne_of_skipsBlank h), if_pos h, if_pos hu]
  have hstep : p.step = ([], true, { p with pending := v, state := target }) := by
    rw [step_channel (.inr (.inl h)), p.channelStep_found hmem.1 hp (skips_of_notMem (notMem_of_isBlank hu) _),
      if_neg (by simp [hu]), hmem.2.1, htext]
    rfl
  have hne : p.pending ≠ [] := by
    rw [hp]
    exact List.append_ne_nil_of_right_ne_nil u (List.append_ne_nil_of_left_ne_nil hmem.2.2 v)
  have hc := Continues.of_progress hne (by rw [hstep]) (opensLate_of_state (state_ne_of_skipsBlank h))
  rwa [hstep] at hc

theorem continues_marker (h : p.skipsBlank = true) {m : Text} {target : Channel}
    (hm : (m, target) ∈ [(messageClose, Channel.done), (toolsOpen, .tools), (thinkOpen, .think),
      (responseOpen, .response)])
    (hp : p.pending = m ++ v) : Continues [] p { p with pending := v, state := target } :=
  continues_blank_marker (u := []) h rfl hm hp

/-- The body of an open channel, up to the marker that closes it. -/
theorem continues_body {m body : Text} (h : p.state = .think ∨ p.state = .response)
    (hm : dictGet p.transitions m = some .between)
    (hlate : m ≠ thinkOpen) (hfree : ∀ m' ∈ p.markers, ¬ m' <:+: body) (hp : p.pending = body ++ (m ++ v)) :
    Continues (p.text body).1 p { (p.text body).2 with pending := v, state := .between } := by
  have hmem : m ∈ p.markers := by
    unfold dictGet at hm
    obtain ⟨e, he, -⟩ := Option.map_eq_some_iff.1 hm
    have heq := List.find?_some he
    rw [decide_eq_true_eq] at heq
    exact heq ▸ List.mem_map_of_mem (List.mem_of_find?_eq_some he)
  have hne := (p.markers_apart m hmem).1
  have hs : Skips p.markers body (m ++ v) :=
    Skips.of_free (fun m' hm' => ((p.markers_apart m hmem).2 m' hm').2)
      (fun m' hm' => ⟨(p.markers_apart m' hm').1, hfree m' hm'⟩) v
  have hskip : p.skipsBlank = false := by
    unfold skipsBlank
    rcases h with h | h <;> rw [h] <;> rfl
  have hchannel : p.step = p.channelStep := by
    unfold step
    rcases h with h | h <;> rw [h]
  have hstep : p.step = ((p.text body).1, true, { (p.text body).2 with pending := v, state := .between }) := by
    rw [hchannel, p.channelStep_found hmem hp hs, if_neg (by simp [hskip]), hm]
    rfl
  have hopen : p.opensLate = false := by
    unfold opensLate
    rw [hp, findFirst_of_skips p.markers_apart hmem hs]
    simp [hlate]
  have hpending : p.pending ≠ [] := by
    rw [hp]
    exact List.append_ne_nil_of_right_ne_nil _ (List.append_ne_nil_of_left_ne_nil hne v)
  have hc := Continues.of_progress hpending (by rw [hstep]) hopen
  rwa [hstep] at hc

/-- Running `p` puts out `o` and comes to the text `v` between two channels. -/
def Reads (p : Parser V) (o : Output) (v : Text) : Prop :=
  ∃ (q : Parser V) (d : List Delta), Continues d p q ∧ outputOf d = o ∧ q.skipsBlank = true ∧ q.pending = v

/-- A closed reasoning is read to its closing tag. -/
theorem reads_reasoning (h : p.state = .think) (hemitted : p.reasoningEmitted = false) {r : Text}
    (hfree : ∀ m ∈ thinkMarkers, ¬ m <:+: r) (hp : p.pending = r ++ (thinkClose ++ v)) :
      p.Reads ⟨r, [], []⟩ v := by
  have htransitions : p.transitions = [(messageClose, .done), (endOfMessage, .done), (toolsOpen, .tools),
      (thinkClose, .between), (responseOpen, .response), (thinkOpen, .think)] := by
    unfold transitions
    rw [h, hemitted]
    rfl
  have hmarkers : p.markers = thinkMarkers := by
    unfold markers
    rw [htransitions]
    rfl
  have hc := continues_body (.inl h) (by rw [htransitions]; decide) (by decide) (by rwa [hmarkers]) hp
  refine ⟨_, _, hc, ?_, rfl, rfl⟩
  by_cases hr : r = []
  · subst hr
    rfl
  · rw [text_of_think h hr]
    simp [outputOf]

/-- So is a closed response. -/
theorem reads_response (h : p.state = .response) {c : Text} (hfree : ∀ m ∈ responseMarkers, ¬ m <:+: c)
    (hp : p.pending = c ++ (responseClose ++ v)) : p.Reads ⟨[], c, []⟩ v := by
  have htransitions : p.transitions = [(messageClose, .done), (endOfMessage, .done), (toolsOpen, .tools),
      (responseClose, .between)] := by
    unfold transitions
    rw [h]
    rfl
  have hmarkers : p.markers = responseMarkers := by
    unfold markers
    rw [htransitions]
    rfl
  have hc := continues_body (.inr h) (by rw [htransitions]; decide) (by decide) (by rwa [hmarkers]) hp
  refine ⟨_, _, hc, ?_, rfl, rfl⟩
  unfold text skipsBlank
  cases c with
  | nil => rfl
  | cons a c => simp [h, outputOf]

theorem Reads.trans {q : Parser V} {d : List Delta} {o : Output} (hc : Continues d p q) (h : q.Reads o v) :
    p.Reads (outputOf d ++ o) v := by
  obtain ⟨q', d', hc', rfl, hskip, hpending⟩ := h
  exact ⟨q', d ++ d', hc.trans hc', outputOf_append d d', hskip, hpending⟩

/-! ### Messages -/

section message

variable (m : Message V)

theorem reads_renderResponse (h : p.skipsBlank = true) (hp : p.pending = m.renderResponse ++ v) :
    p.Reads ⟨[], m.response.getD [], []⟩ v := by
  cases hresponse : m.response with
  | none =>
    have hnil : m.renderResponse = [] := by
      unfold Message.renderResponse
      rw [hresponse]
      rfl
    rw [hnil, List.nil_append] at hp
    exact ⟨p, [], Continues.refl p, rfl, h, hp⟩
  | some c =>
    have hrender : m.renderResponse ++ v = responseOpen ++ (c ++ (responseClose ++ v)) := by
      unfold Message.renderResponse
      rw [hresponse]
      simp only [Option.map_some, Option.getD_some, List.append_assoc]
    rw [hrender] at hp
    have hopen : Continues [] p { p with pending := c ++ (responseClose ++ v), state := .response } :=
      continues_marker h (by simp) hp
    exact Reads.trans hopen (reads_response rfl (m.response_free c hresponse) rfl)

/-- The section of tools yields every call, in order. -/
theorem reads_renderTools (hjson : ∀ x : V, Json.loads (Json.dumps x) = some x) (h : p.skipsBlank = true)
    (hp : p.pending = m.renderTools ++ v) : p.Reads ⟨[], [], (m.tools.getD []).map Call.toolCall⟩ v := by
  cases htools : m.tools with
  | none =>
    have hnil : m.renderTools = [] := by
      unfold Message.renderTools
      rw [htools]
      rfl
    rw [hnil, List.nil_append] at hp
    exact ⟨p, [], Continues.refl p, rfl, h, hp⟩
  | some calls =>
    have hrender : m.renderTools ++ v = toolsOpen ++
      (calls.flatMap Call.render ++ (closeTag ++ ("tools".toList ++ (sepTag ++ v)))) := by
      unfold Message.renderTools
      rw [htools]
      simp only [Option.map_some, Option.getD_some, List.append_assoc]
      rfl
    rw [hrender] at hp
    have hopen : Continues [] p { p with
        pending := calls.flatMap Call.render ++ (closeTag ++ ("tools".toList ++ (sepTag ++ v)))
        state := .tools } := continues_marker h (by simp) hp
    obtain ⟨q, hc, hstate, hpending⟩ := continues_calls hjson calls
      (p := { p with
        pending := calls.flatMap Call.render ++ (closeTag ++ ("tools".toList ++ (sepTag ++ v)))
        state := .tools })
      rfl rfl
    have hclose := continues_tools_close hstate hpending
    refine ⟨_, _, (hopen.trans hc).trans hclose, ?_, rfl, rfl⟩
    have hcalls : ∀ calls : List (Call V), outputOf (calls.map (fun c => Delta.toolCall c.toolCall)) =
        ⟨[], [], calls.map Call.toolCall⟩ := by
      intro calls
      induction calls with
      | nil => rfl
      | cons c calls ih => rw [List.map_cons, outputOf, ih, List.map_cons]
    rw [List.nil_append, List.append_nil, hcalls]
    rfl

/-- The parser comes to the end of the message. -/
def Finishes (p : Parser V) (o : Output) : Prop :=
  ∃ (q : Parser V) (d : List Delta), Continues d p q ∧ outputOf d = o ∧ q.state = .done ∧ q.pending = []

theorem Reads.finishes {o o' : Output} (h : p.Reads o v)
    (hrest : ∀ q : Parser V, q.skipsBlank = true → q.pending = v → q.Finishes o') : p.Finishes (o ++ o') := by
  obtain ⟨q, d, hc, rfl, hskip, hpending⟩ := h
  obtain ⟨q', d', hc', rfl, hdone, hnil⟩ := hrest q hskip hpending
  exact ⟨q', d ++ d', hc.trans hc', outputOf_append d d', hdone, hnil⟩

/-- Everything behind the think channel. -/
theorem finishes_rest (hjson : ∀ x : V, Json.loads (Json.dumps x) = some x) (h : p.skipsBlank = true)
    (hp : p.pending = m.renderResponse ++ (m.renderTools ++ messageClose)) :
    p.Finishes ⟨[], m.response.getD [], (m.tools.getD []).map Call.toolCall⟩ := by
  have hfinish := (reads_renderResponse m h hp).finishes fun q hskip hpending =>
    (reads_renderTools m hjson hskip hpending).finishes fun q' hskip' hpending' => by
      have hclose : Continues [] q' { q' with pending := [], state := .done } :=
        continues_marker (m := messageClose) hskip' (by simp) (by rw [hpending', List.append_nil])
      exact ⟨_, [], hclose, rfl, rfl, rfl⟩
  simpa [outputOf, Output.append_def] using hfinish

/-- **A rendered message is read to its end.** -/
theorem finishes_render (hjson : ∀ x : V, Json.loads (Json.dumps x) = some x) :
    ((Parser.new (V := V) false).append m.render).Finishes m.output := by
  cases hreasoning : m.reasoning with
  | none =>
    have hnil : m.renderThink = [] := by
      unfold Message.renderThink
      rw [hreasoning]
      rfl
    have hfinish := finishes_rest m hjson (p := (Parser.new (V := V) false).append m.render) rfl (by
      rw [append_pending]
      unfold Message.render
      rw [hnil]
      rfl)
    unfold Message.output
    rwa [hreasoning]
  | some r =>
    have hrender : m.render = thinkOpen ++
      (r ++ (thinkClose ++ (m.renderResponse ++ (m.renderTools ++ messageClose)))) := by
      unfold Message.render Message.renderThink
      rw [hreasoning]
      simp only [Option.map_some, Option.getD_some, List.append_assoc]
    have hopen : Continues [] ((Parser.new (V := V) false).append m.render)
        { (Parser.new (V := V) false).append m.render with
          pending := r ++ (thinkClose ++ (m.renderResponse ++ (m.renderTools ++ messageClose)))
          state := .think } := continues_marker rfl (by simp) hrender
    have hfinish := (Reads.trans hopen (reads_reasoning rfl rfl (m.reasoning_free r hreasoning) rfl)).finishes
      fun q hskip hpending => finishes_rest m hjson hskip hpending
    unfold Message.output
    rw [hreasoning]
    simpa [outputOf, Output.append_def] using hfinish

/-- So is one whose reasoning the prompt has opened. -/
theorem finishes_renderOpen (hjson : ∀ x : V, Json.loads (Json.dumps x) = some x) :
    ((Parser.new (V := V) true).append m.renderOpen).Finishes m.output := by
  have hfree : ∀ t ∈ thinkMarkers, ¬ t <:+: m.reasoning.getD [] := by
    cases hreasoning : m.reasoning with
    | none => decide
    | some r => exact m.reasoning_free r hreasoning
  have hfinish := (reads_reasoning (p := (Parser.new (V := V) true).append m.renderOpen) rfl rfl hfree rfl).finishes
    fun q hskip hpending => finishes_rest m hjson hskip hpending
  simpa [Message.output, Output.append_def] using hfinish

end message

end Parser

/-! ## The round trip -/

theorem lt_foldl_min (l : List ℕ) (a k : ℕ) : k < l.foldl min a ↔ k < a ∧ ∀ x ∈ l, k < x := by
  induction l generalizing a with
  | nil => simp
  | cons x l ih => simp only [List.foldl_cons, ih, Nat.lt_min, List.forall_mem_cons, and_assoc]

/-- A marker that is skipped for a while is found behind. -/
theorem le_find_of_skips {m u t : Text} {i : ℕ} (hs : Skips [m] u t) (h : find m (u ++ t) = some i) :
    u.length ≤ i := by
  induction u generalizing i with
  | nil => exact Nat.zero_le i
  | cons a u ih =>
    have hnot : ¬ m <+: a :: (u ++ t) := (hs.1 m (List.mem_singleton.2 rfl)).1
    rw [List.cons_append, find_cons_of_not hnot] at h
    obtain ⟨j, hj, rfl⟩ := Option.map_eq_some_iff.1 h
    exact Nat.succ_le_succ (ih hs.2 hj)

section roundTrip

variable {V : Type} [Json V] [WordChars]

/-- A text that is read to its end in one piece is read the same in any pieces. -/
theorem parse_of_finishes {reasoningOpen : Bool} {text : Text} {o : Output}
    (h : ((Parser.new (V := V) reasoningOpen).append text).Finishes o) {chunks : List Text}
    (hchunks : chunks.flatten = text) :
    parseChunks V reasoningOpen chunks = o := by
  obtain ⟨q, d, hc, rfl, hdone, hnil⟩ := h
  have hlate : opensThinkLate V reasoningOpen text = false := by
    unfold opensThinkLate
    rw [← hc.late, Parser.runLate_nil hnil]
  have hfinish : q.finish = [] := by
    unfold Parser.finish Parser.skipsBlank
    rw [hdone]
    rfl
  rw [parseChunks_eq V hlate hchunks, parseChunks_singleton, outputOf_append, hc.output, hc.final,
    Parser.run_nil hnil, hfinish]
  simp [outputOf, Output.append_def]

/-- A text that begins with a channel is read as one. -/
theorem parseFull_of_opener {m : Text} (hm : m ∈ [thinkOpen, responseOpen, toolsOpen]) (t : Text) :
    parseFull V (m ++ t) = ⟨orNone (parseChunks V false [m ++ t]).content,
      orNone (parseChunks V false [m ++ t]).reasoning,
      (parseChunks V false [m ++ t]).calls⟩ := by
  have hfirst : ∀ k, ¬ k < ([thinkOpen, responseOpen, toolsOpen].filterMap (fun tag => find tag (m ++ t))).foldl
    min (m ++ t).length := by
    intro k hk
    have hzero := ((lt_foldl_min _ _ _).1 hk).2 0
      (List.mem_filterMap.2 ⟨m, hm, find_at_start (List.prefix_append m t)⟩)
    exact absurd hzero (Nat.not_lt_zero k)
  unfold parseFull
  dsimp only
  cases find thinkClose (m ++ t) with
  | none => rfl
  | some close =>
    dsimp only
    rw [decide_eq_false (hfirst close)]

/-- `parse_full` finds the opener of the first part before any `thinkClose`, and parses with the channel closed. -/
theorem parseFull_render (m : Message V) (h : parseChunks V false [m.render] = m.output) :
    parseFull V m.render = m.parsed := by
  have hopener : (∃ t ∈ [thinkOpen, responseOpen, toolsOpen], ∃ rest, m.render = t ++ rest) ∨
    m.render = messageClose := by
    unfold Message.render Message.renderThink Message.renderResponse Message.renderTools
    cases m.reasoning with
    | some r => exact .inl ⟨thinkOpen, by simp, _, List.append_assoc _ _ _⟩
    | none =>
      cases m.response with
      | some c => exact .inl ⟨responseOpen, by simp, _, List.append_assoc _ _ _⟩
      | none =>
        cases m.tools with
        | some calls => exact .inl ⟨toolsOpen, by simp, _, List.append_assoc _ _ _⟩
        | none => exact .inr rfl
  unfold Message.parsed
  rcases hopener with ⟨t, ht, rest, heq⟩ | heq
  · rw [heq] at h ⊢
    rw [parseFull_of_opener ht, h]
  · rw [heq] at h ⊢
    unfold parseFull
    rw [show find thinkClose messageClose = none by decide]
    dsimp only
    rw [h]

theorem parseFull_renderOpen (m : Message V) (h : parseChunks V true [m.renderOpen] = m.output) :
    parseFull V m.renderOpen = m.parsed := by
  have hfree : ∀ t ∈ thinkMarkers, ¬ t <:+: m.reasoning.getD [] := by
    cases hreasoning : m.reasoning with
    | none => decide
    | some r => exact m.reasoning_free r hreasoning
  have hapart : Apart thinkMarkers := by decide
  have hskips : ∀ t, Skips thinkMarkers (m.reasoning.getD []) (thinkClose ++ t) := fun t =>
    Skips.of_free (fun t' ht' => ((hapart thinkClose (by decide)).2 t' ht').2)
      (fun t' ht' => ⟨(hapart t' ht').1, hfree t' ht'⟩) t
  have hclose : find thinkClose m.renderOpen = some (m.reasoning.getD []).length :=
    find_of_skips (by decide) ((hskips _).mono (by decide))
  have hpos : 0 < thinkClose.length := by decide
  have hsub : ∀ tag ∈ [thinkOpen, responseOpen, toolsOpen], tag ∈ thinkMarkers := by decide
  have hdead : ∀ tag ∈ [thinkOpen, responseOpen, toolsOpen],
    ∀ i < thinkClose.length, Dead [tag] (thinkClose.drop i) := by
    decide
  have hbehind : ∀ tag ∈ [thinkOpen, responseOpen, toolsOpen], ∀ i, find tag m.renderOpen = some i →
      (m.reasoning.getD []).length < i := by
    intro tag htag i hi
    have hle := le_find_of_skips (u := m.reasoning.getD [] ++ thinkClose)
      (Skips.append_left.2 ⟨(hskips _).mono (List.cons_subset.2 ⟨hsub tag htag, List.nil_subset _⟩),
        Skips.of_dead (hdead tag htag) _⟩) (by rwa [List.append_assoc])
    rw [List.length_append] at hle
    omega
  have hopen : (m.reasoning.getD []).length <
      ([thinkOpen, responseOpen, toolsOpen].filterMap (fun tag => find tag m.renderOpen)).foldl min
        m.renderOpen.length := by
    refine (lt_foldl_min _ _ _).2 ⟨?_, fun i hi => ?_⟩
    · unfold Message.renderOpen
      simp only [List.length_append]
      omega
    · obtain ⟨tag, htag, hfind⟩ := List.mem_filterMap.1 hi
      exact hbehind tag htag i hfind
  unfold parseFull
  rw [hclose]
  dsimp only
  rw [decide_eq_true hopen, h]
  rfl

/-- **Parsing undoes rendering**, in one piece and under every way of cutting the text. -/
theorem parse_render (hjson : ∀ x : V, Json.loads (Json.dumps x) = some x) (m : Message V) :
    parseFull V m.render = m.parsed ∧
    (∀ chunks : List Text, chunks.flatten = m.render → parseChunks V false chunks = m.output) ∧
      parseFull V m.renderOpen = m.parsed ∧
        ∀ chunks : List Text, chunks.flatten = m.renderOpen → parseChunks V true chunks = m.output := by
  have hclosed : ∀ chunks : List Text, chunks.flatten = m.render → parseChunks V false chunks = m.output :=
    fun chunks hchunks => parse_of_finishes (Parser.finishes_render m hjson) hchunks
  have hopen : ∀ chunks : List Text, chunks.flatten = m.renderOpen → parseChunks V true chunks = m.output :=
    fun chunks hchunks => parse_of_finishes (Parser.finishes_renderOpen m hjson) hchunks
  exact ⟨parseFull_render m (hclosed _ (by simp)), hclosed, parseFull_renderOpen m (hopen _ (by simp)), hopen⟩

end roundTrip

attribute [local instance] jsonText asciiWords

/-- A call with a raw string that holds markers, and a number. -/
def lookup : Call Text where
  name := "look\"up&".toList
  arguments := [
    { key := "q&".toList
      type := "string".toList
      body := messageClose ++ toolsOpen
      value := Json.string (messageClose ++ toolsOpen)
      key_ne := by decide
      key_free := by decide +kernel
      type_free := by decide +kernel
      body_free := by decide +kernel
      written := .inl ⟨rfl, rfl⟩ },
    { key := "n".toList
      type := "number".toList
      body := "1".toList
      value := "1".toList
      key_ne := by decide
      key_free := by decide +kernel
      type_free := by decide +kernel
      body_free := by decide +kernel
      written := .inr ⟨by decide, rfl⟩ }]
  name_ne := by decide
  name_free := by decide +kernel
  keys_nodup := by decide

def answer : Message Text where
  reasoning := some "reason".toList
  response := some ("see ".toList ++ thinkOpen)
  tools := some [lookup]
  reasoning_free := by decide +kernel
  response_free := by decide +kernel

theorem parse_render_answer : parseFull Text answer.render = ⟨some ("see ".toList ++ thinkOpen), some "reason".toList,
      [⟨"look\"up&".toList,
        "\x7b\"q&\": \"".toList ++ messageClose ++ toolsOpen ++ "\", \"n\": 1\x7d".toList⟩]⟩ ∧
    parseChunks Text true (answer.renderOpen.map (fun c => [c])) = answer.output := by
  have h := parse_render (V := Text) (fun x => rfl) answer
  exact ⟨h.1.trans (by decide +kernel), h.2.2.2 _ (by decide +kernel)⟩

end NanoEngine.Kimi
