import Mathlib.Data.List.Infix

/-!
# NanoEngine.Lib.Utf8 — UTF-8 and its lossy decoding

`lossy` reads a character where there is one and puts U+FFFD for every maximal piece that is none (the maximal subparts
of the Unicode standard).

* `lossy_encode_append`: characters that are there are read.
* `lossy_incomplete`: a character that has only begun is one U+FFFD.
* `exists_complete`: what is a prefix of an encoding is whole characters and one that has only begun.
-/

namespace Utf8

/-- U+FFFD. -/
def replacement : Char := Char.ofNat 0xfffd

def encode (cs : List Char) : List UInt8 := cs.flatMap String.utf8EncodeChar

/-- The character at the head of the bytes. -/
def decodeChar? (bs : List UInt8) : Option Char := ByteArray.utf8DecodeChar? bs.toByteArray 0

/-- The length of the character that `lead` begins. -/
def width (lead : ℕ) : ℕ :=
  if lead < 0xc2 then 1 else if lead < 0xe0 then 2 else if lead < 0xf0 then 3 else if lead < 0xf5 then 4 else 1

def continuation (b : ℕ) : Bool := 0x80 ≤ b && b ≤ 0xbf

/-- `b` may be second behind `lead`: no overlong form, no surrogate, nothing above U+10FFFF. -/
def second (lead b : ℕ) : Bool :=
  (if lead = 0xe0 then 0xa0 else if lead = 0xf0 then 0x90 else 0x80) ≤ b &&
    b ≤ (if lead = 0xed then 0x9f else if lead = 0xf4 then 0x8f else 0xbf)

/-- The length of the maximal piece at the head of bytes that do not begin with a character. -/
def pieceLength : List UInt8 → ℕ
  | lead :: b :: rest =>
    if width lead.toNat < 3 || !second lead.toNat b.toNat then 1
    else if width lead.toNat = 4 && rest.head?.any fun d => continuation d.toNat then 3 else 2
  | _ => 1

def lossyLoop : ℕ → List UInt8 → List Char
  | 0, _ => []
  | _ + 1, [] => []
  | fuel + 1, b :: bs =>
    match decodeChar? (b :: bs) with
    | some c => c :: lossyLoop fuel ((b :: bs).drop c.utf8Size)
    | none => replacement :: lossyLoop fuel ((b :: bs).drop (pieceLength (b :: bs)))

/-- The lossy decoding. -/
def lossy (bs : List UInt8) : List Char := lossyLoop bs.length bs

/-- A character that has begun and is not complete, or nothing. -/
def Incomplete (p : List UInt8) : Prop := ∃ c : Char, p <+: String.utf8EncodeChar c ∧ p ≠ String.utf8EncodeChar c

/-! ## Encoding -/

@[simp] theorem encode_nil : encode [] = [] := rfl

@[simp] theorem encode_cons (c : Char) (cs : List Char) : encode (c :: cs) = String.utf8EncodeChar c ++ encode cs := rfl

@[simp] theorem encode_append (cs ds : List Char) : encode (cs ++ ds) = encode cs ++ encode ds := List.flatMap_append

theorem length_utf8EncodeChar_pos (c : Char) : 0 < (String.utf8EncodeChar c).length := by
  rw [String.length_utf8EncodeChar]
  exact c.utf8Size_pos

theorem decodeChar?_encode_append (c : Char) (rest : List UInt8) :
    decodeChar? (String.utf8EncodeChar c ++ rest) = some c := by
  rw [decodeChar?, List.toByteArray_append]
  exact ByteArray.utf8DecodeChar?_utf8EncodeChar_append

theorem decodeChar?_eq_some_iff {bs : List UInt8} {c : Char} :
    decodeChar? bs = some c ↔ ∃ rest, bs = String.utf8EncodeChar c ++ rest := by
  constructor
  · intro h
    obtain ⟨rest, hrest⟩ := ByteArray.exists_of_utf8DecodeChar?_eq_some h
    refine ⟨rest.data.toList, ?_⟩
    have hdata := congrArg (fun b => b.data.toList) hrest
    simpa using hdata
  · rintro ⟨rest, rfl⟩
    exact decodeChar?_encode_append c rest

/-- Two characters at the head of the same bytes are one. -/
theorem eq_of_encode_append_eq {c d : Char} {x y : List UInt8}
    (h : String.utf8EncodeChar c ++ x = String.utf8EncodeChar d ++ y) : c = d := by
  have hc := decodeChar?_encode_append c x
  rw [h, decodeChar?_encode_append] at hc
  exact (Option.some.inj hc).symm

/-! ## Complete and incomplete characters -/

theorem incomplete_nil : Incomplete [] :=
  ⟨'a', List.nil_prefix, fun h => absurd (congrArg List.length h) (length_utf8EncodeChar_pos 'a').ne⟩

/-- Nothing incomplete begins with a character. -/
theorem Incomplete.not_encode_append {p : List UInt8} (hp : Incomplete p) (c : Char) (rest : List UInt8) :
    p ≠ String.utf8EncodeChar c ++ rest := by
  rintro rfl
  obtain ⟨d, ⟨tail, htail⟩, hne⟩ := hp
  rw [List.append_assoc] at htail
  obtain rfl := eq_of_encode_append_eq (htail.trans (List.append_nil _).symm)
  have hlength := congrArg List.length htail
  simp only [List.length_append] at hlength
  have hrest : rest = [] := List.eq_nil_of_length_eq_zero (by omega)
  exact hne (by rw [hrest, List.append_nil])

/-- The whole characters of a prefix are among the whole characters. -/
theorem prefix_of_encode {a b : List Char} {p : List UInt8} (hp : Incomplete p)
    (h : encode a <+: encode b ++ p) : a <+: b := by
  induction a generalizing b with
  | nil => exact List.nil_prefix
  | cons c a ih =>
    obtain ⟨rest, hrest⟩ := h
    rw [encode_cons, List.append_assoc] at hrest
    cases b with
    | nil => exact absurd hrest.symm (hp.not_encode_append c _)
    | cons d b =>
      rw [encode_cons, List.append_assoc] at hrest
      obtain rfl := eq_of_encode_append_eq hrest
      exact List.cons_prefix_cons.2 ⟨rfl, ih ⟨rest, List.append_cancel_left hrest⟩⟩

theorem encode_append_inj {a b : List Char} {p q : List UInt8} (hp : Incomplete p) (hq : Incomplete q)
    (h : encode a ++ p = encode b ++ q) : a = b ∧ p = q := by
  have hab : a <+: b := prefix_of_encode hq ⟨p, h⟩
  have hba : b <+: a := prefix_of_encode hp ⟨q, h.symm⟩
  obtain rfl : a = b := hab.eq_of_length_le hba.length_le
  exact ⟨rfl, List.append_cancel_left h⟩

theorem encode_injective {a b : List Char} (h : encode a = encode b) : a = b :=
  (encode_append_inj incomplete_nil incomplete_nil (congrArg (· ++ []) h)).1

theorem Incomplete.exists_valid {p : List UInt8} (hp : Incomplete p) (cs : List Char) :
    ∃ valid, encode cs ++ p <+: encode valid := by
  obtain ⟨c, hpre, -⟩ := hp
  refine ⟨cs ++ [c], ?_⟩
  rw [encode_append, encode_cons, encode_nil, List.append_nil]
  exact (List.prefix_append_right_inj _).2 hpre

/-- A prefix of an encoding is whole characters and one that has only begun. -/
theorem exists_complete {bs : List UInt8} {cs : List Char} (h : bs <+: encode cs) :
    ∃ a p, bs = encode a ++ p ∧ Incomplete p := by
  induction cs generalizing bs with
  | nil => exact ⟨[], [], List.prefix_nil.1 h, incomplete_nil⟩
  | cons c cs ih =>
    rw [encode_cons] at h
    by_cases hhead : String.utf8EncodeChar c <+: bs
    · obtain ⟨rest, rfl⟩ := hhead
      obtain ⟨a, p, rfl, hp⟩ := ih ((List.prefix_append_right_inj _).1 h)
      exact ⟨c :: a, p, by rw [encode_cons, List.append_assoc], hp⟩
    · -- the bytes end inside the character
      have hlt : bs <+: String.utf8EncodeChar c := by
        rcases List.prefix_or_prefix_of_prefix h (List.prefix_append _ _) with hbs | hbs
        · exact hbs
        · exact absurd hbs hhead
      refine ⟨[], bs, rfl, c, hlt, ?_⟩
      rintro rfl
      exact hhead (List.prefix_refl _)

/-! ## The lossy decoding -/

theorem pieceLength_pos (bs : List UInt8) : 0 < pieceLength bs := by
  fun_cases pieceLength <;> omega

theorem lossyLoop_fuel {fuel : ℕ} {bs : List UInt8} (h : bs.length ≤ fuel) : lossyLoop fuel bs = lossy bs := by
  have hboth : ∀ m n (bs : List UInt8), bs.length ≤ m → bs.length ≤ n → lossyLoop m bs = lossyLoop n bs := by
    intro m
    induction m with
    | zero =>
      intro n bs hm _
      obtain rfl := List.eq_nil_of_length_eq_zero (Nat.le_zero.1 hm)
      cases n <;> rfl
    | succ m ih =>
      intro n bs hm hn
      cases bs with
      | nil => cases n <;> rfl
      | cons b bs =>
        cases n with
        | zero => exact absurd hn (by simp)
        | succ n =>
          -- every round takes at least a byte away
          have hdrop : ∀ k, 0 < k → ((b :: bs).drop k).length ≤ m ∧ ((b :: bs).drop k).length ≤ n := by
            intro k hk
            simp only [List.length_drop, List.length_cons] at hm hn ⊢
            omega
          simp only [lossyLoop]
          split
          · obtain ⟨h₁, h₂⟩ := hdrop _ (Char.utf8Size_pos _)
            rw [ih n _ h₁ h₂]
          · obtain ⟨h₁, h₂⟩ := hdrop _ (pieceLength_pos _)
            rw [ih n _ h₁ h₂]
  exact hboth _ _ _ h le_rfl

@[simp] theorem lossy_nil : lossy [] = [] := rfl

theorem lossy_of_decodeChar? {bs : List UInt8} {c : Char} (h : decodeChar? bs = some c) :
    lossy bs = c :: lossy (bs.drop c.utf8Size) := by
  cases bs with
  | nil =>
    obtain ⟨rest, hrest⟩ := decodeChar?_eq_some_iff.1 h
    have hlength := congrArg List.length hrest
    have hpos := length_utf8EncodeChar_pos c
    rw [List.length_append, List.length_nil] at hlength
    omega
  | cons b bs =>
    have hpos := Char.utf8Size_pos c
    rw [lossy, List.length_cons, lossyLoop, h]
    simp only
    rw [lossyLoop_fuel (by simp only [List.length_drop, List.length_cons]; omega)]

theorem lossy_of_decodeChar?_eq_none {b : UInt8} {bs : List UInt8} (h : decodeChar? (b :: bs) = none) :
    lossy (b :: bs) = replacement :: lossy ((b :: bs).drop (pieceLength (b :: bs))) := by
  have hpos := pieceLength_pos (b :: bs)
  rw [lossy, List.length_cons, lossyLoop, h]
  simp only
  rw [lossyLoop_fuel (by simp only [List.length_drop, List.length_cons]; omega)]

theorem lossy_encode_append (cs : List Char) (rest : List UInt8) : lossy (encode cs ++ rest) = cs ++ lossy rest := by
  induction cs with
  | nil => rfl
  | cons c cs ih =>
    rw [encode_cons, List.append_assoc, lossy_of_decodeChar? (decodeChar?_encode_append c _),
      ← String.length_utf8EncodeChar, List.drop_left, ih, List.cons_append]

theorem lossy_encode (cs : List Char) : lossy (encode cs) = cs := by
  simpa using lossy_encode_append cs []

theorem Incomplete.decodeChar?_eq_none {p : List UInt8} (hp : Incomplete p) : decodeChar? p = none := by
  rw [Option.eq_none_iff_forall_ne_some]
  intro c hc
  obtain ⟨rest, hrest⟩ := decodeChar?_eq_some_iff.1 hc
  exact hp.not_encode_append c rest hrest

theorem toNat_ofNat {n : ℕ} (h : n < 256) : (UInt8.ofNat n).toNat = n := by
  rw [UInt8.toNat_ofNat']
  exact Nat.mod_eq_of_lt h

/-- The bytes of a character of three or four bytes stand in the table. -/
theorem second_of_encoding {c : Char} {l b d : UInt8} {tail : List UInt8}
    (h : String.utf8EncodeChar c = l :: b :: d :: tail) :
    3 ≤ width l.toNat ∧ second l.toNat b.toNat = true ∧
      (tail ≠ [] → width l.toNat = 4 ∧ continuation d.toNat = true) := by
  have hvalid := c.valid
  simp only [UInt32.isValidChar, Nat.isValidChar] at hvalid
  simp only [String.utf8EncodeChar] at h
  generalize c.val.toNat = v at h hvalid
  split_ifs at h with h1 h2 h3
  · simp at h
  · simp at h
  · simp only [List.cons.injEq] at h
    obtain ⟨rfl, rfl, -, rfl⟩ := h
    rw [toNat_ofNat (by omega), toNat_ofNat (by omega)]
    refine ⟨?_, ?_, fun h => absurd rfl h⟩
    · unfold width
      split_ifs <;> omega
    · simp only [second, Bool.and_eq_true, decide_eq_true_eq]
      constructor <;> split_ifs <;> omega
  · simp only [List.cons.injEq] at h
    obtain ⟨rfl, rfl, rfl, rfl⟩ := h
    rw [toNat_ofNat (by omega), toNat_ofNat (by omega), toNat_ofNat (by omega)]
    have hwidth : width (v / 262144 % 8 + 240) = 4 := by
      unfold width
      split_ifs <;> omega
    refine ⟨by omega, ?_, fun _ => ⟨hwidth, ?_⟩⟩
    · simp only [second, Bool.and_eq_true, decide_eq_true_eq]
      constructor <;> split_ifs <;> omega
    · simp only [continuation, Bool.and_eq_true, decide_eq_true_eq]
      omega

/-- What has begun of a character is one maximal piece. -/
theorem Incomplete.pieceLength_eq {p : List UInt8} (hp : Incomplete p) (hne : p ≠ []) : pieceLength p = p.length := by
  obtain ⟨c, ⟨rest, hrest⟩, hproper⟩ := hp
  have hrest_ne : rest ≠ [] := by
    rintro rfl
    exact hproper (by rw [← hrest, List.append_nil])
  obtain ⟨x, tail, rfl⟩ := List.exists_cons_of_ne_nil hrest_ne
  match p, hne with
  | [l], _ => rfl
  | [l, b], _ =>
    obtain ⟨hwidth, hsecond, -⟩ := second_of_encoding hrest.symm
    simp [pieceLength, hsecond, Nat.not_lt.2 hwidth]
  | [l, b, d], _ =>
    obtain ⟨-, hsecond, hfour⟩ := second_of_encoding hrest.symm
    obtain ⟨hwidth, hcont⟩ := hfour (List.cons_ne_nil _ _)
    simp [pieceLength, hsecond, hwidth, hcont]
  | l :: b :: d :: e :: p, _ =>
    have hlength := congrArg List.length hrest
    have hfour := c.utf8Size_le_four
    rw [String.length_utf8EncodeChar, List.length_append] at hlength
    simp only [List.length_cons] at hlength
    omega

theorem lossy_incomplete {p : List UInt8} (hp : Incomplete p) (hne : p ≠ []) : lossy p = [replacement] := by
  obtain ⟨b, bs, rfl⟩ := List.exists_cons_of_ne_nil hne
  rw [lossy_of_decodeChar?_eq_none hp.decodeChar?_eq_none, hp.pieceLength_eq hne, List.drop_length, lossy_nil]

end Utf8
