import Mathlib.Algebra.Group.Nat.Defs
import Mathlib.Data.List.Nodup
import Mathlib.Logic.Basic

/-!
# NanoEngine.Lib.Codec — binary formats read from the front

A codec writes a value as bytes and reads it back from the front of any bytes that begin with them.

* `Codec.Canonical`: what is read is what was written, so that a value has one encoding.
* `fixint`, `bool`, `string`, `pair`, `list`, `map`: integers of fixed width, lowest byte first; lists, strings and maps
  with a length of eight bytes before them.
* `Codec.iso`: the codec of a structure from the one of its fields.
-/

abbrev Bytes := List UInt8

/-- What is written can be read, whatever follows. -/
structure Codec (α : Type) where
  encode : α → Bytes
  decode : Bytes → Option (α × Bytes)
  decode_encode : ∀ a rest, decode (encode a ++ rest) = some (a, rest)

namespace Codec

variable {α β : Type} {c : Codec α} {d : Codec β}

def Canonical (c : Codec α) : Prop := ∀ bs a rest, c.decode bs = some (a, rest) → bs = c.encode a ++ rest

theorem Canonical.decode_iff (hc : c.Canonical) {bs rest : Bytes} {a : α} :
    c.decode bs = some (a, rest) ↔ bs = c.encode a ++ rest :=
  ⟨hc bs a rest, fun h => h ▸ c.decode_encode a rest⟩

/-- Reading succeeds on the bytes that begin with an encoding. -/
theorem Canonical.decode_eq_none_iff (hc : c.Canonical) {bs : Bytes} :
    c.decode bs = none ↔ ¬ ∃ a, c.encode a <+: bs := by
  constructor
  · rintro hnone ⟨a, rest, rfl⟩
    rw [c.decode_encode] at hnone
    cases hnone
  · intro h
    by_contra hsome
    obtain ⟨⟨a, rest⟩, hdecode⟩ := Option.ne_none_iff_exists'.1 hsome
    exact h ⟨a, rest, (hc bs a rest hdecode).symm⟩

section integers

/-- The lowest `n` bytes of a number. -/
def encodeNat : ℕ → ℕ → Bytes
  | 0, _ => []
  | n + 1, x => UInt8.ofNat x :: encodeNat n (x / 256)

def decodeNat : ℕ → Bytes → Option (ℕ × Bytes)
  | 0, bs => some (0, bs)
  | _ + 1, [] => none
  | n + 1, b :: bs => (decodeNat n bs).map fun x => (b.toNat + 256 * x.1, x.2)

@[simp] theorem length_encodeNat (n x : ℕ) : (encodeNat n x).length = n := by
  induction n generalizing x with
  | zero => rfl
  | succ n ih => rw [encodeNat, List.length_cons, ih]

theorem decodeNat_iff {n x : ℕ} {bs rest : Bytes} :
    decodeNat n bs = some (x, rest) ↔ x < 256 ^ n ∧ bs = encodeNat n x ++ rest := by
  induction n generalizing x bs with
  | zero =>
    rw [decodeNat, encodeNat, List.nil_append, Nat.pow_zero, Nat.lt_one_iff, Option.some.injEq, Prod.mk.injEq]
    exact ⟨fun ⟨hx, hbs⟩ => ⟨hx.symm, hbs⟩, fun ⟨hx, hbs⟩ => ⟨hx.symm, hbs⟩⟩
  | succ n ih =>
    cases bs with
    | nil =>
      rw [decodeNat, encodeNat, List.cons_append]
      constructor
      · intro h
        cases h
      · rintro ⟨_, h⟩
        cases h
    | cons b bs =>
      rw [decodeNat, encodeNat, List.cons_append, Option.map_eq_some_iff, Nat.pow_succ]
      constructor
      · rintro ⟨⟨y, rest'⟩, hy, heq⟩
        obtain ⟨rfl, rfl⟩ := Prod.mk.inj heq
        obtain ⟨hlt, rfl⟩ := ih.1 hy
        have hb : b.toNat < 256 := b.toNat_lt
        have hdiv : (b.toNat + 256 * y) / 256 = y := by omega
        have hbyte : UInt8.ofNat (b.toNat + 256 * y) = b := by
          rw [← UInt8.toNat_inj, UInt8.toNat_ofNat']
          omega
        refine ⟨by omega, ?_⟩
        rw [hdiv, hbyte]
      · rintro ⟨hlt, heq⟩
        obtain ⟨rfl, rfl⟩ := List.cons.inj heq
        refine ⟨(x / 256, rest), ih.2 ⟨by omega, rfl⟩, Prod.ext ?_ rfl⟩
        dsimp only
        rw [UInt8.toNat_ofNat']
        omega

/-- An integer of `n` bytes. -/
def fixint (n : ℕ) : Codec (BitVec (8 * n)) where
  encode x := encodeNat n x.toNat
  decode bs := (decodeNat n bs).map fun x => (BitVec.ofNat (8 * n) x.1, x.2)
  decode_encode x rest := by
    have hlt : x.toNat < 256 ^ n := by
      have := x.isLt
      rwa [Nat.pow_mul] at this
    rw [decodeNat_iff.2 ⟨hlt, rfl⟩, Option.map_some, BitVec.ofNat_toNat, BitVec.setWidth_eq]

theorem canonical_fixint (n : ℕ) : (fixint n).Canonical := by
  intro bs x rest h
  obtain ⟨⟨y, rest'⟩, hy, heq⟩ := Option.map_eq_some_iff.1 h
  obtain ⟨rfl, rfl⟩ := Prod.mk.inj heq
  obtain ⟨hlt, rfl⟩ := decodeNat_iff.1 hy
  dsimp only [fixint]
  rw [BitVec.toNat_ofNat, Nat.pow_mul, Nat.mod_eq_of_lt hlt]

/-- One byte, `0` or `1`. -/
def bool : Codec Bool where
  encode b := [if b then 1 else 0]
  decode
    | [] => none
    | x :: bs => if x = 0 then some (false, bs) else if x = 1 then some (true, bs) else none
  decode_encode b rest := by cases b <;> rfl

theorem canonical_bool : bool.Canonical := by
  intro bs b rest h
  cases bs with
  | nil => cases h
  | cons x bs =>
    dsimp only [bool] at h ⊢
    split_ifs at h with hzero hone
    · obtain ⟨rfl, rfl⟩ := Prod.mk.inj (Option.some.inj h)
      rw [hzero]
      rfl
    · obtain ⟨rfl, rfl⟩ := Prod.mk.inj (Option.some.inj h)
      rw [hone]
      rfl

end integers

/-- One value after the other. -/
def pair (c : Codec α) (d : Codec β) : Codec (α × β) where
  encode x := c.encode x.1 ++ d.encode x.2
  decode bs := (c.decode bs).bind fun x => (d.decode x.2).map fun y => ((x.1, y.1), y.2)
  decode_encode x rest := by
    rw [List.append_assoc, c.decode_encode, Option.bind_some, d.decode_encode, Option.map_some]

theorem canonical_pair (hc : c.Canonical) (hd : d.Canonical) : (pair c d).Canonical := by
  intro bs x rest h
  obtain ⟨⟨a, bs'⟩, ha, h⟩ := Option.bind_eq_some_iff.1 h
  obtain ⟨⟨b, rest'⟩, hb, heq⟩ := Option.map_eq_some_iff.1 h
  obtain ⟨rfl, rfl⟩ := Prod.mk.inj heq
  dsimp only [pair] at hb ⊢
  rw [hc _ _ _ ha, hd _ _ _ hb, List.append_assoc]

/-- The same bytes for other values. -/
def iso (c : Codec α) (f : α → β) (g : β → α) (h : ∀ b, f (g b) = b) : Codec β where
  encode b := c.encode (g b)
  decode bs := (c.decode bs).map fun x => (f x.1, x.2)
  decode_encode b rest := by rw [c.decode_encode, Option.map_some, h]

theorem canonical_iso (hc : c.Canonical) {f : α → β} {g : β → α} (h : ∀ b, f (g b) = b)
    (h' : ∀ a, g (f a) = a) :
    (c.iso f g h).Canonical := by
  intro bs b rest hdecode
  obtain ⟨⟨a, rest'⟩, ha, heq⟩ := Option.map_eq_some_iff.1 hdecode
  obtain ⟨rfl, rfl⟩ := Prod.mk.inj heq
  dsimp only [iso]
  rw [h', hc _ _ _ ha]

section lists

/-- `n` values, one after another. -/
def decodeList (c : Codec α) : ℕ → Bytes → Option (List α × Bytes)
  | 0, bs => some ([], bs)
  | n + 1, bs => (c.decode bs).bind fun x => (decodeList c n x.2).map fun y => (x.1 :: y.1, y.2)

theorem decodeList_encode (c : Codec α) (l : List α) (rest : Bytes) :
    decodeList c l.length (l.flatMap c.encode ++ rest) = some (l, rest) := by
  induction l with
  | nil => rfl
  | cons a l ih =>
    rw [List.length_cons, decodeList, List.flatMap_cons, List.append_assoc, c.decode_encode, Option.bind_some]
    dsimp only
    rw [ih, Option.map_some]

theorem Canonical.decodeList (hc : c.Canonical) {n : ℕ} {bs rest : Bytes} {l : List α}
    (h : decodeList c n bs = some (l, rest)) : l.length = n ∧ bs = l.flatMap c.encode ++ rest := by
  induction n generalizing bs l with
  | zero =>
    obtain ⟨rfl, rfl⟩ := Prod.mk.inj (Option.some.inj h)
    exact ⟨rfl, rfl⟩
  | succ n ih =>
    obtain ⟨⟨a, bs'⟩, ha, h⟩ := Option.bind_eq_some_iff.1 h
    obtain ⟨⟨l', rest'⟩, hl, heq⟩ := Option.map_eq_some_iff.1 h
    obtain ⟨rfl, rfl⟩ := Prod.mk.inj heq
    obtain ⟨hlen, hbs⟩ := ih hl
    refine ⟨by rw [List.length_cons, hlen], ?_⟩
    rw [List.flatMap_cons, List.append_assoc, ← hbs]
    exact hc _ _ _ ha

/-- A list whose length fits in eight bytes. -/
def Vec (α : Type) : Type := { l : List α // l.length < 2 ^ 64 }

def u64 : Codec (BitVec 64) := fixint 8

theorem canonical_u64 : u64.Canonical := canonical_fixint 8

theorem toNat_ofNat_length {n : ℕ} (h : n < 2 ^ 64) : (BitVec.ofNat 64 n).toNat = n := by
  rw [BitVec.toNat_ofNat, Nat.mod_eq_of_lt h]

/-- The length, then the values. -/
def list (c : Codec α) : Codec (Vec α) where
  encode l := u64.encode (BitVec.ofNat 64 l.1.length) ++ l.1.flatMap c.encode
  decode bs := (u64.decode bs).bind fun x =>
    (decodeList c x.1.toNat x.2).bind fun y => if h : y.1.length < 2 ^ 64 then some (⟨y.1, h⟩, y.2) else none
  decode_encode l rest := by
    rw [List.append_assoc, u64.decode_encode, Option.bind_some]
    dsimp only
    rw [toNat_ofNat_length l.2, decodeList_encode, Option.bind_some]
    exact dif_pos l.2

theorem canonical_list (hc : c.Canonical) : (list c).Canonical := by
  intro bs l rest h
  obtain ⟨⟨n, bs'⟩, hn, h⟩ := Option.bind_eq_some_iff.1 h
  obtain ⟨⟨l', rest'⟩, hl, h⟩ := Option.bind_eq_some_iff.1 h
  split_ifs at h with hlt
  obtain ⟨rfl, rfl⟩ := Prod.mk.inj (Option.some.inj h)
  obtain ⟨hlen, hbs⟩ := hc.decodeList hl
  have hlength : BitVec.ofNat 64 l'.length = n := by rw [hlen, BitVec.ofNat_toNat, BitVec.setWidth_eq]
  dsimp only [list] at hbs ⊢
  rw [hlength, List.append_assoc, ← hbs]
  exact canonical_u64 _ _ _ hn

/-- A string whose bytes fit in eight bytes of length. -/
def Str : Type := { s : String // s.toByteArray.data.size < 2 ^ 64 }

/-- The number of bytes, then the bytes; they must be UTF-8. -/
def string : Codec Str where
  encode s := u64.encode (BitVec.ofNat 64 s.1.toByteArray.data.size) ++ s.1.toByteArray.data.toList
  decode bs := (u64.decode bs).bind fun x =>
    if x.2.length < x.1.toNat then none
    else (String.fromUTF8? ⟨(x.2.take x.1.toNat).toArray⟩).bind fun s =>
      if h : s.toByteArray.data.size < 2 ^ 64 then some (⟨s, h⟩, x.2.drop x.1.toNat) else none
  decode_encode s rest := by
    have hlen : s.1.toByteArray.data.toList.length = s.1.toByteArray.data.size := Array.length_toList
    have hstring : String.fromUTF8? s.1.toByteArray = some s.1 := dif_pos s.1.isValidUTF8
    rw [List.append_assoc, u64.decode_encode, Option.bind_some]
    dsimp only
    rw [toNat_ofNat_length s.2,
      if_neg (by rw [List.length_append, hlen]; omega), ← hlen, List.take_left, List.drop_left,
      Array.toArray_toList]
    rw [hstring, Option.bind_some]
    exact dif_pos s.2

theorem canonical_string : string.Canonical := by
  intro bs s rest h
  obtain ⟨⟨n, bs'⟩, hn, h⟩ := Option.bind_eq_some_iff.1 h
  dsimp only at h
  split_ifs at h with hshort
  obtain ⟨t, ht, h⟩ := Option.bind_eq_some_iff.1 h
  split_ifs at h with hlt
  obtain ⟨rfl, rfl⟩ := Prod.mk.inj (Option.some.inj h)
  have hbytes : t.toByteArray.data.toList = bs'.take n.toNat := by
    unfold String.fromUTF8? at ht
    split_ifs at ht with hvalid
    rw [← Option.some.inj ht]
    rfl
  have hsize : t.toByteArray.data.size = n.toNat := by
    rw [← Array.length_toList, hbytes, List.length_take]
    omega
  dsimp only [string]
  rw [hsize, hbytes, BitVec.ofNat_toNat, BitVec.setWidth_eq, List.append_assoc, List.take_append_drop]
  exact canonical_u64 _ _ _ hn

end lists

section maps

/-- A map with its entries in the order in which they are visited. -/
structure Map (κ α : Type) where
  entries : List (κ × α)
  nodup : (entries.map Prod.fst).Nodup
  length_lt : entries.length < 2 ^ 64

theorem Map.ext {κ : Type} {m m' : Map κ α} (h : m.entries = m'.entries) : m = m' := by
  cases m
  cases m'
  cases h
  rfl

variable {κ : Type} [DecidableEq κ]

/-- An entry takes the place of the one with its key. -/
def insertEntry (entries : List (κ × α)) (x : κ × α) : List (κ × α) :=
  if x.1 ∈ entries.map Prod.fst then entries.map fun y => if y.1 = x.1 then x else y else entries ++ [x]

theorem keys_insertEntry (entries : List (κ × α)) (x : κ × α) :
    (insertEntry entries x).map Prod.fst =
      if x.1 ∈ entries.map Prod.fst then entries.map Prod.fst else entries.map Prod.fst ++ [x.1] := by
  unfold insertEntry
  split_ifs with hmem
  · rw [List.map_map]
    refine List.map_congr_left fun y _ => ?_
    rw [Function.comp_apply]
    split_ifs with hkey
    · exact hkey.symm
    · rfl
  · rw [List.map_append, List.map_singleton]

theorem nodup_insertEntry {entries : List (κ × α)} (h : (entries.map Prod.fst).Nodup) (x : κ × α) :
    ((insertEntry entries x).map Prod.fst).Nodup := by
  rw [keys_insertEntry]
  split_ifs with hmem
  · exact h
  · exact List.nodup_append.2 ⟨h, List.nodup_singleton _, fun k hk k' hk' heq => hmem (by
      rw [← List.mem_singleton.1 hk', ← heq]
      exact hk)⟩

theorem length_insertEntry_le (entries : List (κ × α)) (x : κ × α) :
    (insertEntry entries x).length ≤ entries.length + 1 := by
  have hlen := congrArg List.length (keys_insertEntry entries x)
  rw [List.length_map] at hlen
  rw [hlen]
  split_ifs
  · rw [List.length_map]
    exact Nat.le_succ _
  · exact Nat.le_of_eq (by rw [List.length_append, List.length_map, List.length_singleton])

theorem nodup_insertEntries (l entries : List (κ × α)) (h : (entries.map Prod.fst).Nodup) :
    ((l.foldl insertEntry entries).map Prod.fst).Nodup := by
  induction l generalizing entries with
  | nil => exact h
  | cons x l ih => exact ih _ (nodup_insertEntry h x)

theorem length_insertEntries_le (l entries : List (κ × α)) :
    (l.foldl insertEntry entries).length ≤ entries.length + l.length := by
  induction l generalizing entries with
  | nil => exact Nat.le_refl _
  | cons x l ih =>
    have hstep := length_insertEntry_le entries x
    have hrest := ih (insertEntry entries x)
    rw [List.foldl_cons, List.length_cons]
    omega

/-- Different keys stay in their order. -/
theorem insertEntries_of_nodup {l entries : List (κ × α)} (h : ((entries ++ l).map Prod.fst).Nodup) :
    l.foldl insertEntry entries = entries ++ l := by
  induction l generalizing entries with
  | nil => rw [List.foldl_nil, List.append_nil]
  | cons x l ih =>
    have hnew : x.1 ∉ entries.map Prod.fst := by
      rw [List.map_append, List.map_cons] at h
      exact fun hmem => (List.disjoint_of_nodup_append h) hmem List.mem_cons_self
    have hinsert : insertEntry entries x = entries ++ [x] := if_neg hnew
    rw [List.foldl_cons, hinsert, ih (by rwa [List.append_assoc, List.singleton_append]), List.append_assoc,
      List.singleton_append]

/-- The entries, inserted one after another. -/
def Map.ofVec (l : Vec (κ × α)) : Map κ α where
  entries := l.1.foldl insertEntry []
  nodup := nodup_insertEntries _ _ List.nodup_nil
  length_lt := by
    have hle := length_insertEntries_le l.1 []
    rw [List.length_nil, Nat.zero_add] at hle
    exact Nat.lt_of_le_of_lt hle l.2

def map (key : Codec κ) (c : Codec α) : Codec (Map κ α) :=
  (list (pair key c)).iso Map.ofVec (fun m => ⟨m.entries, m.length_lt⟩) fun m =>
    Map.ext ((insertEntries_of_nodup (by rw [List.nil_append]; exact m.nodup)).trans (List.nil_append _))

end maps

end Codec
