import NanoEngine.Lib.Utf8
import NanoEngine.Server.Stream

/-!
# NanoEngine.Server.Detokenize — the text of the deltas

The tokenizer decodes lossily the bytes of the tokens.  `detokenize` joins the deltas of the items of a request.

* `Windowed`: the two windows of the generation lie on characters, and the joined deltas are the text before the read
  offset.
* A delta is all the text that is missing, and only when the tokens end with a whole character that is not U+FFFD itself
  (`incrementalDetokenize_of_clean`, `incrementalDetokenize_of_unclean`).
* The joined deltas are the text at the last item of that kind (`detokenize_longest`).
-/

namespace NanoEngine.Server

open Kimi Utf8

/-- `tokenizer.decode`, for the bytes of every token. -/
def decodeBytes (bytes : ℤ → List UInt8) (ids : List ℤ) : Text := lossy (ids.flatMap bytes)

section deltas

variable (decode : List ℤ → Text) (maxTokens : ℕ)

/-- An item of a request: the deltas so far and the generation. -/
def detokenizeItem (r : Text × Generation) (ids : List ℤ) : Text × Generation :=
  match receive maxTokens r.2 ids with
  | none => r
  | some gen =>
    let d := incrementalDetokenize decode gen
    (r.1 ++ d.1, d.2)

/-- The joined deltas of a request, and its generation. -/
def detokenize (items : List (List ℤ)) : Text × Generation := items.foldl (detokenizeItem decode maxTokens) ([], {})

/-- The tokens that a request takes from its items. -/
def received (items : List (List ℤ)) : List ℤ := items.flatten.take maxTokens

theorem detokenize_concat (items : List (List ℤ)) (ids : List ℤ) :
    detokenize decode maxTokens (items ++ [ids]) =
      detokenizeItem decode maxTokens (detokenize decode maxTokens items) ids := by
  simp only [detokenize, List.foldl_append, List.foldl_cons, List.foldl_nil]

variable {decode maxTokens}

theorem receive_eq_none_iff {gen : Generation} {ids : List ℤ} :
    receive maxTokens gen ids = none ↔ maxTokens ≤ gen.tokenIds.length := by
  unfold receive
  split <;> simp [*]

theorem tokenIds_of_receive {gen gen' : Generation} {ids : List ℤ} (h : receive maxTokens gen ids = some gen') :
    gen' = { gen with tokenIds := gen.tokenIds ++ ids.take (maxTokens - gen.tokenIds.length) } := by
  unfold receive at h
  split at h
  · cases h
  · exact (Option.some.inj h).symm

theorem received_concat (items : List (List ℤ)) (ids : List ℤ) :
    received maxTokens (items ++ [ids]) =
      received maxTokens items ++ ids.take (maxTokens - (received maxTokens items).length) := by
  simp only [received, List.flatten_append, List.flatten_cons, List.flatten_nil, List.append_nil, List.take_append,
    List.length_take]
  congr 2
  omega

theorem detokenizeItem_of_none {r : Text × Generation} {ids : List ℤ} (h : receive maxTokens r.2 ids = none) :
    detokenizeItem decode maxTokens r ids = r := by
  simp only [detokenizeItem, h]

theorem detokenizeItem_of_some {r : Text × Generation} {gen : Generation} {ids : List ℤ}
    (h : receive maxTokens r.2 ids = some gen) : detokenizeItem decode maxTokens r ids =
      (r.1 ++ (incrementalDetokenize decode gen).1, (incrementalDetokenize decode gen).2) := by
  simp only [detokenizeItem, h]

end deltas

/-! ## The windows -/

section windows

variable {bytes : ℤ → List UInt8}

/-- The window before the read offset holds the text `w`, and the deltas so far are `a` and `w`. -/
structure Windowed (bytes : ℤ → List UInt8) (out : Text) (gen : Generation) (a w : Text) : Prop where
  prefix_le : gen.prefixOffset ≤ gen.readOffset
  read_le : gen.readOffset ≤ gen.tokenIds.length
  before : (gen.tokenIds.take gen.prefixOffset).flatMap bytes = encode a
  window : ((gen.tokenIds.take gen.readOffset).drop gen.prefixOffset).flatMap bytes = encode w
  out_eq : out = a ++ w

theorem Windowed.init : Windowed bytes [] {} [] [] := ⟨le_rfl, le_rfl, rfl, rfl, rfl⟩

/-- More tokens leave the windows where they are. -/
theorem Windowed.receive {out a w : Text} {gen gen' : Generation} {maxTokens : ℕ} {ids : List ℤ}
    (h : Windowed bytes out gen a w) (hreceive : receive maxTokens gen ids = some gen') :
      Windowed bytes out gen' a w := by
  have hread := h.read_le
  have hpre := h.prefix_le
  rw [tokenIds_of_receive hreceive]
  refine ⟨hpre, ?_, ?_, ?_, h.out_eq⟩
  · simp only [List.length_append]
    omega
  · simp only
    rw [List.take_append_of_le_length (hpre.trans hread), h.before]
  · simp only
    rw [List.take_append_of_le_length hread, h.window]

/-- What is before the read offset is the joined deltas. -/
theorem Windowed.read_eq {out a w : Text} {gen : Generation} (h : Windowed bytes out gen a w) :
    (gen.tokenIds.take gen.readOffset).flatMap bytes = encode out := by
  have hsplit := List.take_append_drop gen.prefixOffset (gen.tokenIds.take gen.readOffset)
  rw [List.take_take, min_eq_left h.prefix_le] at hsplit
  rw [← hsplit, List.flatMap_append, h.before, h.window, h.out_eq, encode_append]

theorem lossy_encode_incomplete {cs : Text} {p : List UInt8} (hp : Incomplete p) :
    lossy (encode cs ++ p) = cs ++ if p = [] then [] else [replacement] := by
  rw [lossy_encode_append]
  split_ifs with hnil
  · rw [hnil, lossy_nil]
  · rw [lossy_incomplete hp hnil]

/-- A delta is all the text that is missing, when the tokens end with a whole character that is not U+FFFD. -/
theorem Windowed.incrementalDetokenize {out a w cs : Text} {gen : Generation} {p : List UInt8}
    (h : Windowed bytes out gen a w) (hbytes : gen.tokenIds.flatMap bytes = encode cs ++ p) (hp : Incomplete p) :
    ∃ v, cs = out ++ v ∧ incrementalDetokenize (decodeBytes bytes) gen =
      if p = [] ∧ v ≠ [] ∧ v.getLast? ≠ some replacement then
        (v, { gen with prefixOffset := gen.readOffset, readOffset := gen.tokenIds.length })
      else ([], gen) := by
  have hread := h.read_eq
  have hsplit : encode out ++ (gen.tokenIds.drop gen.readOffset).flatMap bytes = encode cs ++ p := by
    rw [← hread, ← List.flatMap_append, List.take_append_drop, hbytes]
  obtain ⟨v, rfl⟩ := prefix_of_encode hp ⟨_, hsplit⟩
  refine ⟨v, rfl, ?_⟩
  rw [encode_append, List.append_assoc] at hsplit
  have hrest := List.append_cancel_left hsplit
  -- the longer window holds the text of the shorter one, what is missing, and the character that has only begun
  have hwindow : (gen.tokenIds.drop gen.prefixOffset).flatMap bytes = encode (w ++ v) ++ p := by
    have htake := List.take_append_drop (gen.readOffset - gen.prefixOffset) (gen.tokenIds.drop gen.prefixOffset)
    rw [← List.drop_take, List.drop_drop, Nat.add_sub_cancel' h.prefix_le] at htake
    rw [← htake, List.flatMap_append, h.window, hrest, encode_append, List.append_assoc]
  have hprefixText : decodeBytes bytes ((gen.tokenIds.take gen.readOffset).drop gen.prefixOffset) = w := by
    rw [decodeBytes, h.window, lossy_encode]
  have hnewText :
      decodeBytes bytes (gen.tokenIds.drop gen.prefixOffset) = w ++ v ++ if p = [] then [] else [replacement] := by
    rw [decodeBytes, hwindow, lossy_encode_incomplete hp]
  unfold Server.incrementalDetokenize
  by_cases hnil : p = []
  · rw [if_pos hnil, List.append_nil] at hnewText
    simp only [hprefixText, hnewText, hnil, true_and]
    by_cases hv : v = []
    · simp [hv]
    · have hlast : (w ++ v).getLast? = v.getLast? := List.getLast?_append_of_ne_nil _ hv
      have hlt : w.length < (w ++ v).length := by
        rw [List.length_append]
        exact Nat.lt_add_of_pos_right (List.length_pos_iff.2 hv)
      simp only [hlast, hlt, true_and, ne_eq, hv, not_false_eq_true, List.drop_left, replacement]
  · -- the text ends with the mark of the character that has only begun
    rw [if_neg hnil] at hnewText
    simp [hprefixText, hnewText, hnil, replacement]

/-- The windows behind a delta. -/
theorem Windowed.advance {out a w v : Text} {gen : Generation} (h : Windowed bytes out gen a w)
    (hbytes : gen.tokenIds.flatMap bytes = encode (out ++ v)) :
    Windowed bytes (out ++ v) { gen with prefixOffset := gen.readOffset, readOffset := gen.tokenIds.length } out v := by
  refine ⟨h.read_le, le_rfl, h.read_eq, ?_, rfl⟩
  have hsplit := congrArg (List.flatMap bytes) (List.take_append_drop gen.readOffset gen.tokenIds)
  rw [List.flatMap_append, h.read_eq, hbytes, encode_append] at hsplit
  simp only [List.take_length]
  exact List.append_cancel_left hsplit

/-! ## Runs -/

variable {maxTokens : ℕ}

/-- The bytes of the first `k` items. -/
def bytesAt (bytes : ℤ → List UInt8) (maxTokens : ℕ) (items : List (List ℤ)) (k : ℕ) : List UInt8 :=
  (received maxTokens (items.take k)).flatMap bytes

theorem bytesAt_length (items : List (List ℤ)) :
    bytesAt bytes maxTokens items items.length = (received maxTokens items).flatMap bytes := by
  rw [bytesAt, List.take_length]

theorem bytesAt_of_le {items : List (List ℤ)} {k : ℕ} (h : items.length ≤ k) :
    bytesAt bytes maxTokens items k = (received maxTokens items).flatMap bytes := by
  rw [bytesAt, List.take_of_length_le h]

theorem bytesAt_append_left {items : List (List ℤ)} {k : ℕ} (h : k ≤ items.length) (more : List (List ℤ)) :
    bytesAt bytes maxTokens (items ++ more) k = bytesAt bytes maxTokens items k := by
  rw [bytesAt, bytesAt, List.take_append_of_le_length h]

/-- A text that the items reach with nothing begun behind it, and that does not end in U+FFFD. -/
def Reached (bytes : ℤ → List UInt8) (maxTokens : ℕ) (items : List (List ℤ)) (text : Text) : Prop :=
  text.getLast? ≠ some replacement ∧ ∃ k, bytesAt bytes maxTokens items k = encode text

/-- The joined deltas are the longest text that was reached. -/
structure Longest (bytes : ℤ → List UInt8) (maxTokens : ℕ) (items : List (List ℤ)) (out : Text) : Prop where
  reached : Reached bytes maxTokens items out
  longest : ∀ text, Reached bytes maxTokens items text → text <+: out

theorem reached_concat {items : List (List ℤ)} {ids : List ℤ} {text : Text} :
    Reached bytes maxTokens (items ++ [ids]) text ↔ Reached bytes maxTokens items text ∨
      text.getLast? ≠ some replacement ∧ (received maxTokens (items ++ [ids])).flatMap bytes = encode text := by
  constructor
  · rintro ⟨hlast, k, hk⟩
    by_cases hle : k ≤ items.length
    · rw [bytesAt_append_left hle] at hk
      exact .inl ⟨hlast, k, hk⟩
    · rw [bytesAt_of_le (by simp; omega)] at hk
      exact .inr ⟨hlast, hk⟩
  · rintro (⟨hlast, k, hk⟩ | ⟨hlast, hk⟩)
    · refine ⟨hlast, min k items.length, ?_⟩
      rw [bytesAt_append_left (min_le_right _ _)]
      rcases le_total k items.length with hle | hle
      · rw [min_eq_left hle, hk]
      · rw [min_eq_right hle, bytesAt_length, ← bytesAt_of_le hle, hk]
    · exact ⟨hlast, _, by rw [bytesAt_length, hk]⟩

/-- The bytes of fewer items are a prefix. -/
theorem received_append_mono (bytes : ℤ → List UInt8) (maxTokens : ℕ) (items more : List (List ℤ)) :
    (received maxTokens items).flatMap bytes <+: (received maxTokens (items ++ more)).flatMap bytes := by
  have hpre : received maxTokens items <+: received maxTokens (items ++ more) := by
    rw [received, received, List.flatten_append]
    exact (List.prefix_append _ _).take maxTokens
  obtain ⟨rest, hrest⟩ := hpre
  rw [← hrest, List.flatMap_append]
  exact List.prefix_append _ _

theorem bytesAt_mono (items : List (List ℤ)) (k : ℕ) :
    bytesAt bytes maxTokens items k <+: (received maxTokens items).flatMap bytes := by
  have h := received_append_mono bytes maxTokens (items.take k) (items.drop k)
  rwa [List.take_append_drop] at h

/-- The joined deltas and the generation after some items. -/
structure Shown (bytes : ℤ → List UInt8) (maxTokens : ℕ) (items : List (List ℤ))
    (r : Text × Generation) : Prop where
  tokenIds : r.2.tokenIds = received maxTokens items
  windowed : ∃ a w, Windowed bytes r.1 r.2 a w
  longest : Longest bytes maxTokens items r.1

theorem Shown.init : Shown bytes maxTokens [] ([], {}) := by
  refine ⟨by simp [received], ⟨[], [], Windowed.init⟩, ⟨by simp, 0, by simp [bytesAt, received]⟩, ?_⟩
  rintro text ⟨-, k, hk⟩
  have hnil : encode [] = encode text := by
    rw [← hk, bytesAt, List.take_nil]
    simp [received]
  rw [encode_injective hnil]

/-- An item behind the limit changes nothing. -/
theorem Longest.of_received_eq {items : List (List ℤ)} {ids : List ℤ} {out : Text}
    (h : Longest bytes maxTokens items out)
    (hsame : received maxTokens (items ++ [ids]) = received maxTokens items) :
    Longest bytes maxTokens (items ++ [ids]) out := by
  refine ⟨reached_concat.2 (.inl h.reached), fun text htext => ?_⟩
  rcases reached_concat.1 htext with htext | ⟨hlast, htext⟩
  · exact h.longest text htext
  · rw [hsame, ← bytesAt_length] at htext
    exact h.longest text ⟨hlast, _, htext⟩

theorem Shown.detokenizeItem {items : List (List ℤ)} {r : Text × Generation} {ids : List ℤ} {valid : Text}
    (h : Shown bytes maxTokens items r)
    (hvalid : (received maxTokens (items ++ [ids])).flatMap bytes <+: encode valid) :
    Shown bytes maxTokens (items ++ [ids]) (detokenizeItem (decodeBytes bytes) maxTokens r ids) := by
  obtain ⟨hids, ⟨a, w, hwin⟩, hlong⟩ := h
  obtain ⟨cs, p, hbytes, hp⟩ := exists_complete hvalid
  -- a bundle behind the limit is dropped; otherwise the decoded window grows by it
  cases hreceive : receive maxTokens r.2 ids with
  | none =>
    have hfull := receive_eq_none_iff.1 hreceive
    rw [hids] at hfull
    have hsame : received maxTokens (items ++ [ids]) = received maxTokens items := by
      rw [received_concat, Nat.sub_eq_zero_of_le hfull, List.take_zero, List.append_nil]
    rw [detokenizeItem_of_none hreceive]
    exact ⟨hids.trans hsame.symm, ⟨a, w, hwin⟩, hlong.of_received_eq hsame⟩
  | some gen =>
    have hgen := hwin.receive hreceive
    have hids : gen.tokenIds = received maxTokens (items ++ [ids]) := by
      rw [tokenIds_of_receive hreceive, received_concat, ← hids]
    obtain ⟨v, rfl, heq⟩ := hgen.incrementalDetokenize (by rw [hids, hbytes]) hp
    rw [detokenizeItem_of_some hreceive, heq]
    split_ifs with hfire
    · -- the delta is all that was missing
      obtain ⟨rfl, hv, hlast⟩ := hfire
      rw [List.append_nil] at hbytes
      have hclean : (r.1 ++ v).getLast? ≠ some replacement := by
        rwa [List.getLast?_append_of_ne_nil _ hv]
      refine ⟨hids, ⟨_, _, hgen.advance (by rw [hids, hbytes])⟩,
        reached_concat.2 (.inr ⟨hclean, hbytes⟩), ?_⟩
      intro text htext
      rcases reached_concat.1 htext with htext | ⟨-, htext⟩
      · exact (hlong.longest text htext).trans (List.prefix_append _ _)
      · rw [hbytes] at htext
        rw [encode_injective htext]
    · rw [List.append_nil]
      refine ⟨hids, ⟨a, w, hgen⟩, reached_concat.2 (.inl hlong.reached), fun text htext => ?_⟩
      rcases reached_concat.1 htext with htext | ⟨hlast, htext⟩
      · exact hlong.longest text htext
      · -- nothing was missing, or there would have been a delta
        rw [hbytes] at htext
        obtain ⟨rfl, rfl⟩ := encode_append_inj hp incomplete_nil (htext.trans (List.append_nil _).symm)
        by_cases hv : v = []
        · rw [hv, List.append_nil]
        · rw [List.getLast?_append_of_ne_nil _ hv] at hlast
          exact absurd ⟨rfl, hv, hlast⟩ hfire

theorem detokenize_shown {items : List (List ℤ)} {valid : Text}
    (h : (received maxTokens items).flatMap bytes <+: encode valid) :
    Shown bytes maxTokens items (detokenize (decodeBytes bytes) maxTokens items) := by
  induction items using List.reverseRecOn with
  | nil => exact Shown.init
  | append_singleton items ids ih =>
    rw [detokenize_concat]
    exact (ih ((received_append_mono bytes maxTokens items [ids]).trans h)).detokenizeItem h

/-- The joined deltas are whole characters of the tokens. -/
theorem detokenize_mono {items : List (List ℤ)} {cs : Text} {p : List UInt8} (hp : Incomplete p)
    (h : (received maxTokens items).flatMap bytes = encode cs ++ p) :
    (detokenize (decodeBytes bytes) maxTokens items).1 <+: cs := by
  obtain ⟨valid, hvalid⟩ := hp.exists_valid cs
  obtain ⟨-, k, hk⟩ := (detokenize_shown (by rw [h]; exact hvalid)).longest.reached
  apply prefix_of_encode hp
  rw [← hk, ← h]
  exact bytesAt_mono items k

theorem detokenize_prefix_decode {items : List (List ℤ)} {valid : Text}
    (h : (received maxTokens items).flatMap bytes <+: encode valid) :
    (detokenize (decodeBytes bytes) maxTokens items).1 <+: decodeBytes bytes (received maxTokens items) := by
  obtain ⟨cs, p, hbytes, hp⟩ := exists_complete h
  rw [decodeBytes, hbytes, lossy_encode_append]
  exact (detokenize_mono hp hbytes).trans (List.prefix_append _ _)

/-- At every point the joined deltas are a prefix of the decoding, and at the end they are the whole characters `cs`. -/
def LosesNothing (bytes : ℤ → List UInt8) (maxTokens : ℕ) (items : List (List ℤ)) (cs : Text) : Prop :=
  (∀ k, (detokenize (decodeBytes bytes) maxTokens (items.take k)).1 <+:
    decodeBytes bytes (received maxTokens (items.take k))) ∧
  (detokenize (decodeBytes bytes) maxTokens items).1 = cs

/-- Nothing is lost exactly when some item ends right behind the last whole character, and that is not U+FFFD. -/
theorem detokenize_losesNothing_iff {items : List (List ℤ)} {valid : Text}
    (h : (received maxTokens items).flatMap bytes <+: encode valid) :
    ∃ cs p, (received maxTokens items).flatMap bytes = encode cs ++ p ∧ Incomplete p ∧
      (LosesNothing bytes maxTokens items cs ↔
        cs.getLast? ≠ some replacement ∧ ∃ k, (received maxTokens (items.take k)).flatMap bytes = encode cs) := by
  obtain ⟨cs, p, hbytes, hp⟩ := exists_complete h
  have hlong := (detokenize_shown h).longest
  refine ⟨cs, p, hbytes, hp, ?_⟩
  constructor
  · rintro ⟨-, rfl⟩
    exact hlong.reached
  · intro hreached
    constructor
    · intro k
      exact detokenize_prefix_decode ((bytesAt_mono items k).trans h)
    · have hback : cs <+: (detokenize (decodeBytes bytes) maxTokens items).1 := hlong.longest cs hreached
      have hforth := detokenize_mono hp hbytes
      exact hforth.eq_of_length_le hback.length_le

end windows

/-! ## A bundle that ends inside a character -/

/-- Token `1` is `hi`, token `2` the first byte of a character of four. -/
def splitBytes (token : ℤ) : List UInt8 := if token = 1 then [0x68, 0x69] else [0xf0]

theorem detokenize_losesNothing_iff_hi :
    (received 8 [[1], [2]]).flatMap splitBytes <+: encode ['h', 'i', Char.ofNat 0x1f600] ∧
      ∃ cs p, (received 8 [[1], [2]]).flatMap splitBytes = encode cs ++ p ∧ Incomplete p ∧
        (LosesNothing splitBytes 8 [[1], [2]] cs ↔
          cs.getLast? ≠ some replacement ∧
            ∃ k, (received 8 ([[1], [2]].take k)).flatMap splitBytes = encode cs) := by
  have hvalid : (received 8 [[1], [2]]).flatMap splitBytes <+: encode ['h', 'i', Char.ofNat 0x1f600] := by decide
  exact ⟨hvalid, detokenize_losesNothing_iff hvalid⟩

/-- One bundle with both tokens: the two characters of the first are never shown. -/
theorem hi_lost : ¬ ∀ (bytes : ℤ → List UInt8) (maxTokens : ℕ) (items : List (List ℤ)) (valid : Text),
    (received maxTokens items).flatMap bytes <+: encode valid →
      ∃ cs p, (received maxTokens items).flatMap bytes = encode cs ++ p ∧ Incomplete p ∧
        LosesNothing bytes maxTokens items cs := by
  intro hall
  obtain ⟨cs, p, hbytes, hp, -, hout⟩ := hall splitBytes 8 [[1, 2]] ['h', 'i', Char.ofNat 0x1f600] (by decide)
  have hnone : (detokenize (decodeBytes splitBytes) 8 [[1, 2]]).1 = [] := by decide +kernel
  obtain rfl : cs = [] := hout.symm.trans hnone
  have hchar : (received 8 [[1, 2]]).flatMap splitBytes = encode ['h'] ++ [0x69, 0xf0] := by decide
  exact hp.not_encode_append 'h' [0x69, 0xf0] (hbytes.symm.trans hchar)

end NanoEngine.Server
