import NanoEngine.HiSparse.Load

/-!
# NanoEngine.HiSparse.Union — the selected tokens of a request share their hot slots

The invariant of a launch, for any order of the steps of its blocks.

* `LoadArgs.Batch`: what the callers of the kernel see to.
* `claimed`: the part of a request's table that belongs to the launch; `Claims` is the invariant of the probing.
* `BlockInv`: what a block knows where it is.
* `LoadInv`: the invariant; `Step` is what the other blocks see of a step.
-/

namespace NanoEngine.HiSparse

open Transition Probing

variable {B : Type*} {D : ℕ}

namespace LoadArgs

/-- The rows of a request come one after another and have its slot and its length; no other request has its slot.  The
sizes are those that are checked before the launch and those of the workspace. -/
structure Batch (a : LoadArgs B D) : Prop where
  topk_pos : 0 < a.topk
  union : a.topk * a.tokensPerSeq ≤ a.hotCapacity
  stride : a.hotCapacity + a.tokensPerSeq ≤ a.slotStrideTokens
  hash : ∃ m, a.unionHashCapacity = 2 ^ m
  room : 2 * a.hotCapacity ≤ a.unionHashCapacity
  int32 : ∀ b, a.Grid b → a.logical b < 2 ^ 31
  request : ∀ row row', a.Active row → a.Active row' →
    (a.slot row = a.slot row' ↔ a.reqOffset row = a.reqOffset row')
  length : ∀ row row', a.reqOffset row = a.reqOffset row' → a.seqLens row = a.seqLens row'

variable (a : LoadArgs B D) (row : ℕ) (b w : ℕ × ℕ)

/-- A selected token that is not among those the batch writes. -/
def Copies : Prop := a.Active b.1 ∧ a.Valid b ∧ ¬ a.OutputSpan b

def Long : Prop := a.Active row ∧ ¬ a.ShortSequence row

/-- The blocks that look into the hash table. -/
def Hashed : Prop := a.Copies b ∧ ¬ a.ShortSequence b.1

/-- The hot slot that the block copies to, if it copies. -/
def target : ℕ := a.hotBase b.1 + if a.ShortSequence b.1 then (a.logical b).toNat else a.entry b

/-- The block looks for the same token of the same request. -/
structure Twin : Prop where
  grid : a.Grid w
  hashed : a.Hashed w
  slot : a.slot w.1 = a.slot b.1
  key : a.key w = a.key b

end LoadArgs

section Args

variable {a : LoadArgs B D} {b w : ℕ × ℕ}

theorem LoadArgs.Hashed.long (h : a.Hashed b) : a.Long b.1 := ⟨h.1.1, h.2⟩

theorem LoadArgs.tokensPerSeq_pos (a : LoadArgs B D) : 0 < a.tokensPerSeq := by
  unfold tokensPerSeq
  split <;> omega

/-- The step of a row is below the number of rows of a request. -/
theorem LoadArgs.tokenStep_lt (a : LoadArgs B D) (row : ℕ) : a.tokenStep row < a.tokensPerSeq := by
  have hmod := Nat.div_add_mod' row a.tokensPerSeq
  have hlt := Nat.mod_lt row a.tokensPerSeq_pos
  unfold tokenStep reqOffset
  omega

theorem LoadArgs.row_eq {row row' : ℕ} (hreq : a.reqOffset row = a.reqOffset row')
    (hstep : a.tokenStep row = a.tokenStep row') : row = row' := by
  have hmod := Nat.div_add_mod' row a.tokensPerSeq
  have hmod' := Nat.div_add_mod' row' a.tokensPerSeq
  unfold tokenStep reqOffset at *
  rw [hreq] at hstep hmod
  omega

/-- A hot slot belongs to one request. -/
theorem LoadArgs.slot_of_hot {row row' off off' : ℕ} (hoff : off < a.slotStrideTokens)
    (hoff' : off' < a.slotStrideTokens)
    (h : a.hotBase row + off = a.hotBase row' + off') : a.slot row = a.slot row' ∧ off = off' := by
  unfold hotBase at h
  have hdiv := congrArg (· / a.slotStrideTokens) h
  have hpos : 0 < a.slotStrideTokens := by omega
  simp only [Nat.mul_comm _ a.slotStrideTokens, Nat.mul_add_div hpos, Nat.div_eq_of_lt hoff,
    Nat.div_eq_of_lt hoff'] at hdiv
  have hslot : a.slot row = a.slot row' := hdiv
  rw [hslot] at h
  exact ⟨hslot, Nat.add_left_cancel h⟩

theorem LoadArgs.pageOf_inj {i j : ℕ} (h : a.pageOf i = a.pageOf j) : i = j := by
  have hdiv := congrArg Prod.fst h
  have hmod := congrArg Prod.snd h
  change i / a.blockSize = j / a.blockSize at hdiv
  change i % a.blockSize = j % a.blockSize at hmod
  rw [← Nat.div_add_mod i a.blockSize, hdiv, hmod, Nat.div_add_mod]

theorem LoadArgs.Twin.refl (hgrid : a.Grid b) (h : a.Hashed b) : a.Twin b b := ⟨hgrid, h, rfl, rfl⟩

namespace LoadArgs.Batch

theorem entry_lt (hb : a.Batch) (hi : b.2 < a.topk) : a.entry b < a.hotCapacity := by
  have hstep := a.tokenStep_lt b.1
  calc a.entry b < a.tokenStep b.1 * a.topk + a.topk := Nat.add_lt_add_left hi _
    _ = (a.tokenStep b.1 + 1) * a.topk := (Nat.succ_mul _ _).symm
    _ ≤ a.tokensPerSeq * a.topk := Nat.mul_le_mul_right _ hstep
    _ = a.topk * a.tokensPerSeq := Nat.mul_comm _ _
    _ ≤ a.hotCapacity := hb.union

/-- Two blocks of a request have different entries. -/
theorem entry_inj (hb : a.Batch) (hreq : a.reqOffset b.1 = a.reqOffset w.1) (hi : b.2 < a.topk) (hi' : w.2 < a.topk)
    (hentry : a.entry b = a.entry w) : b = w := by
  unfold entry at hentry
  have hstep : a.tokenStep b.1 = a.tokenStep w.1 := by
    have h := congrArg (· / a.topk) hentry
    simp only [Nat.mul_add_div hb.topk_pos, Nat.mul_comm _ a.topk, Nat.div_eq_of_lt hi, Nat.div_eq_of_lt hi'] at h
    exact h
  rw [hstep] at hentry
  exact Prod.ext (row_eq hreq hstep) (Nat.add_left_cancel hentry)

theorem short_iff (hb : a.Batch) (hreq : a.reqOffset b.1 = a.reqOffset w.1) :
    a.ShortSequence b.1 ↔ a.ShortSequence w.1 := by
  unfold ShortSequence
  rw [hb.length _ _ hreq]

theorem epoch_eq (hb : a.Batch) {row row' : ℕ} (hrow : a.Active row) (hrow' : a.Active row')
    (hslot : a.slot row = a.slot row') : a.epoch row = a.epoch row' := by
  unfold epoch
  rw [hb.length _ _ ((hb.request _ _ hrow hrow').1 hslot)]

theorem key_eq (hb : a.Batch) (hgrid : a.Grid b) (h : a.Valid b) : a.key b = (a.logical b).toNat := by
  have hlt := hb.int32 b hgrid
  have hnonneg := h.2.1
  unfold key uint32
  rw [Int.emod_eq_of_lt hnonneg (by omega)]

/-- The place of a token of a short sequence, or of an entry, is below the capacity. -/
theorem target_lt (hb : a.Batch) (hi : b.2 < a.topk) (h : a.Copies b) :
    ∃ off < a.hotCapacity, a.target b = a.hotBase b.1 + off := by
  refine ⟨_, ?_, rfl⟩
  split
  case isTrue hshort =>
    have hlogical := h.2.1.2.2 hshort
    have hcap := hshort.2
    have hnonneg := h.2.1.2.1
    omega
  case isFalse => exact hb.entry_lt hi

/-- Two blocks that copy to one hot slot copy the same token of the same request. -/
theorem target_inj (hb : a.Batch) (hi : b.2 < a.topk) (hi' : w.2 < a.topk) (h : a.Copies b) (h' : a.Copies w)
    (htarget : a.target b = a.target w) :
    a.slot b.1 = a.slot w.1 ∧ (a.logical b).toNat = (a.logical w).toNat := by
  obtain ⟨off, hoff, heq⟩ := hb.target_lt hi h
  obtain ⟨off', hoff', heq'⟩ := hb.target_lt hi' h'
  have hstride := hb.stride
  obtain ⟨hslot, -⟩ := slot_of_hot (by omega) (by omega) (heq.symm.trans (htarget.trans heq'))
  have hreq := (hb.request _ _ h.1 h'.1).1 hslot
  refine ⟨hslot, ?_⟩
  have hbase : a.hotBase b.1 = a.hotBase w.1 := congrArg (· * a.slotStrideTokens) hslot
  unfold target at htarget
  rw [hbase] at htarget
  have hoffs := Nat.add_left_cancel htarget
  by_cases hshort : a.ShortSequence b.1
  · rwa [if_pos hshort, if_pos ((hb.short_iff hreq).1 hshort)] at hoffs
  · rw [if_neg hshort, if_neg fun hw => hshort ((hb.short_iff hreq).2 hw)] at hoffs
    rw [hb.entry_inj hreq hi hi' hoffs]

end LoadArgs.Batch

end Args

/-! ### The invariant -/

/-- The key of the launch that has claimed a bucket of the request's table. -/
def claimed (a : LoadArgs B D) (s : LoadState B D) (row bucket : ℕ) : Option ℕ :=
  if wordEpoch (s.unionHashEntries (a.slot row, bucket)) = a.epoch row then
    some (wordKey (s.unionHashEntries (a.slot row, bucket)))
  else none

/-- Between the compare-and-swap and the ready bit. -/
def Filling (pc : LoadPc D) (bucket : ℕ) : Prop := pc = .fill bucket ∨ pc = .publish bucket

/-- The block has published its entry, or copies for a short sequence. -/
def Past : LoadPc D → Prop
  | .selected _ copy => copy = true
  | .copying .. => True
  | .returned copied => copied = true
  | _ => False

/-- The residency flag of the token has been set. -/
def Marked : LoadPc D → Prop
  | .copying _ _ marked => marked = true
  | .returned copied => copied = true
  | _ => False

/-- The hot slot that a block of an active row selects. -/
inductive Chosen (a : LoadArgs B D) (s : LoadState B D) (b : ℕ × ℕ) : ℤ → Prop
  | invalid (hvalid : ¬ a.Valid b) : Chosen a s b (-1)
  | short (hvalid : a.Valid b) (hshort : a.ShortSequence b.1) : Chosen a s b ((a.hotBase b.1 : ℤ) + a.logical b)
  | span (hvalid : a.Valid b) (hlong : ¬ a.ShortSequence b.1) (hspan : a.OutputSpan b) :
      Chosen a s b ((a.hotBase b.1 : ℤ) + (a.hotCapacity : ℤ) + a.logical b - a.outputStart b.1)
  | union (w : ℕ × ℕ) (hashed : a.Hashed b) (twin : a.Twin b w) (past : Past (s.pc w)) :
    Chosen a s b (a.target w : ℤ)

/-- The bucket that block `w` has claimed: `w` is on its way to the ready bit, or past it. -/
def Holder (a : LoadArgs B D) (s : LoadState B D) (w : ℕ × ℕ) (bucket : ℕ) : Prop :=
  s.unionHashEntries (a.slot w.1, bucket) = pendingWord (a.key w) (a.epoch w.1) ∧ Filling (s.pc w) bucket ∨
    s.unionHashEntries (a.slot w.1, bucket) = pendingWord (a.key w) (a.epoch w.1) ||| 1 ∧
      s.unionHashValues (a.slot w.1, bucket) = a.entry w ∧ Past (s.pc w)

/-- What the block of an active row has given back. -/
structure Emitted (a : LoadArgs B D) (s : LoadState B D) (b : ℕ × ℕ) : Prop where
  output : Chosen a s b (s.output b)
  slots : b.2 = 0 → s.hotOutputSlots b.1 = a.hotOutputSlot b.1

/-- `kv slot pos` is the row of the token in the cold cache. -/
def Fetched (a : LoadArgs B D) (kv : ℕ → ℕ → Fin D → B) (s : LoadState B D) (b : ℕ × ℕ)
    (byte : Fin D) : Prop :=
  s.hot (a.pageOf (a.target b)) byte = kv (a.slot b.1) (a.logical b).toNat byte

def Resident (a : LoadArgs B D) (s : LoadState B D) (b : ℕ × ℕ) : Prop :=
  s.residentTokens (a.slot b.1, (a.logical b).toNat) = true

/-- What block `b` knows where it is.  After `n` probes it has passed `j` places; each took at most two probes. -/
def BlockInv (a : LoadArgs B D) (kv : ℕ → ℕ → Fin D → B) (s : LoadState B D) (b : ℕ × ℕ) :
    LoadPc D → Prop
  | .start => True
  | .probe n bucket => a.Hashed b ∧ ∃ j, bucket = place a.unionHashCapacity a.home (a.key b) j ∧
      Passed a.unionHashCapacity a.home (claimed a s b.1) (a.key b) j ∧
      (n ≤ 2 * j ∨ n ≤ 2 * j + 1 ∧ claimed a s b.1 bucket ≠ none)
  | .cas n bucket old => a.Hashed b ∧ wordEpoch old ≠ a.epoch b.1 ∧
      (s.unionHashEntries (a.slot b.1, bucket) = old ∨ claimed a s b.1 bucket ≠ none) ∧
      ∃ j, bucket = place a.unionHashCapacity a.home (a.key b) j ∧
        Passed a.unionHashCapacity a.home (claimed a s b.1) (a.key b) j ∧ n ≤ 2 * j
  | .fill bucket => a.Hashed b ∧ s.unionHashEntries (a.slot b.1, bucket) = pendingWord (a.key b) (a.epoch b.1)
  | .publish bucket => a.Hashed b ∧ s.unionHashEntries (a.slot b.1, bucket) = pendingWord (a.key b) (a.epoch b.1) ∧
      s.unionHashValues (a.slot b.1, bucket) = a.entry b
  | .wait bucket => a.Hashed b ∧ claimed a s b.1 bucket = some (a.key b)
  | .take bucket => a.Hashed b ∧ s.unionHashEntries (a.slot b.1, bucket) = pendingWord (a.key b) (a.epoch b.1) ||| 1
  | .selected d copy => a.Active b.1 ∧ Chosen a s b d ∧ (copy = true → a.Copies b ∧ d = (a.target b : ℤ)) ∧
      (a.Copies b → a.ShortSequence b.1 → copy = false → Resident a s b)
  | .copying dst bytes marked =>
    a.Copies b ∧ dst = a.target b ∧ Emitted a s b ∧ (∀ byte ∈ bytes, Fetched a kv s b byte) ∧
      (a.ShortSequence b.1 → marked = true → Resident a s b)
  | .returned copied => (a.Active b.1 → Emitted a s b ∧ (a.Copies b → a.ShortSequence b.1 → Resident a s b)) ∧
      (¬ a.Active b.1 → s.output b = -1 ∧ (b.2 = 0 → s.hotOutputSlots b.1 = -1)) ∧
      (copied = true → a.Copies b ∧ ∀ byte, Fetched a kv s b byte)

structure LoadInv (a : LoadArgs B D) (kv : ℕ → ℕ → Fin D → B) (s₀ s : LoadState B D) : Prop where
  claims : ∀ row, a.Long row → Claims a.unionHashCapacity a.home (claimed a s row)
  held : ∀ row, a.Long row → ∀ bucket k, claimed a s row bucket = some k →
    ∃ w, a.Grid w ∧ a.Hashed w ∧ a.slot w.1 = a.slot row ∧ a.key w = k ∧ Holder a s w bucket
  one : ∀ b w bucket, a.Grid b → a.Grid w → Filling (s.pc b) bucket → Filling (s.pc w) bucket →
    a.slot b.1 = a.slot w.1 → b = w
  block : ∀ b, a.Grid b → BlockInv a kv s b (s.pc b)
  hot : ∀ page byte, s.hot page byte = s₀.hot page byte ∨
    ∃ b, a.Grid b ∧ a.Copies b ∧ page = a.pageOf (a.target b) ∧ Fetched a kv s b byte
  resident : ∀ slot pos, s.residentTokens (slot, pos) = true → s₀.residentTokens (slot, pos) = true ∨
    ∃ b, a.Grid b ∧ a.Active b.1 ∧ a.ShortSequence b.1 ∧ a.slot b.1 = slot ∧
      ((pos : ℤ) = a.outputPos b.1 ∨ a.Copies b ∧ pos = (a.logical b).toNat ∧ Marked (s.pc b))
  kept : ∀ slot pos, s₀.residentTokens (slot, pos) = true → s.residentTokens (slot, pos) = true
  table : ∀ slot bucket, s.unionHashEntries (slot, bucket) = s₀.unionHashEntries (slot, bucket) ∨
    ∃ b, a.Grid b ∧ a.Hashed b ∧ a.slot b.1 = slot ∧ wordEpoch (s.unionHashEntries (slot, bucket)) = a.epoch b.1

/-! ### What the others see of a step -/

/-- Block `b` may change its own word, value, results and hot row; to the others claims stay, flags stay set, and what
they have written stays. -/
structure Step (a : LoadArgs B D) (kv : ℕ → ℕ → Fin D → B) (b : ℕ × ℕ)
    (s s' : LoadState B D) : Prop where
  pc : ∀ w ≠ b, s'.pc w = s.pc w
  past : Past (s.pc b) → Past (s'.pc b)
  marked : Marked (s.pc b) → Marked (s'.pc b)
  claimed : ∀ row, a.Long row → ∀ bucket k, claimed a s row bucket = some k → claimed a s' row bucket = some k
  word : ∀ row, a.Long row → ∀ bucket,
    s'.unionHashEntries (a.slot row, bucket) = s.unionHashEntries (a.slot row, bucket) ∨
    HiSparse.claimed a s' row bucket ≠ none
  filling : ∀ w ≠ b, a.Grid w → ∀ bucket, Filling (s.pc w) bucket →
    s'.unionHashEntries (a.slot w.1, bucket) = s.unionHashEntries (a.slot w.1, bucket) ∧
      s'.unionHashValues (a.slot w.1, bucket) = s.unionHashValues (a.slot w.1, bucket)
  ready : ∀ w, a.Hashed w → ∀ bucket,
    s.unionHashEntries (a.slot w.1, bucket) = pendingWord (a.key w) (a.epoch w.1) ||| 1 →
    s'.unionHashEntries (a.slot w.1, bucket) = s.unionHashEntries (a.slot w.1, bucket) ∧
      s'.unionHashValues (a.slot w.1, bucket) = s.unionHashValues (a.slot w.1, bucket)
  resident : ∀ slot pos, s.residentTokens (slot, pos) = true → s'.residentTokens (slot, pos) = true
  output : ∀ w ≠ b, s'.output w = s.output w
  slots : ∀ w ≠ b, w.2 = 0 → s'.hotOutputSlots w.1 = s.hotOutputSlots w.1
  hot : ∀ w, a.Grid w → a.Copies w → ∀ byte, Fetched a kv s w byte → Fetched a kv s' w byte

section Others

variable {a : LoadArgs B D} {kv : ℕ → ℕ → Fin D → B} {s s' : LoadState B D} {b w : ℕ × ℕ}

theorem Step.past_pc (h : Step a kv b s s') (hw : Past (s.pc w)) : Past (s'.pc w) := by
  by_cases heq : w = b
  · subst heq
    exact h.past hw
  · rwa [h.pc w heq]

theorem Chosen.step (h : Step a kv b s s') {d : ℤ} (hd : Chosen a s w d) : Chosen a s' w d := by
  cases hd with
  | invalid hvalid => exact .invalid hvalid
  | short hvalid hshort => exact .short hvalid hshort
  | span hvalid hlong hspan => exact .span hvalid hlong hspan
  | union v hashed twin past => exact .union v hashed twin (h.past_pc past)

theorem Emitted.step (h : Step a kv b s s') (hne : w ≠ b) (hw : Emitted a s w) : Emitted a s' w where
  output := by
    rw [h.output w hne]
    exact hw.output.step h
  slots hi := (h.slots w hne hi).trans (hw.slots hi)

theorem Step.passed (h : Step a kv b s s') {row : ℕ} (hrow : a.Long row) {k j : ℕ}
    (hpassed : Passed a.unionHashCapacity a.home (HiSparse.claimed a s row) k j) :
    Passed a.unionHashCapacity a.home (HiSparse.claimed a s' row) k j := by
  intro i hi
  obtain ⟨k', hne, hk'⟩ := hpassed i hi
  exact ⟨k', hne, h.claimed row hrow _ _ hk'⟩

theorem Step.claimed_ne_none (h : Step a kv b s s') {row : ℕ} (hrow : a.Long row) {bucket : ℕ}
    (hne : HiSparse.claimed a s row bucket ≠ none) : HiSparse.claimed a s' row bucket ≠ none := by
  obtain ⟨k, hk⟩ := Option.ne_none_iff_exists'.1 hne
  rw [h.claimed row hrow _ _ hk]
  exact Option.some_ne_none k

/-- What another block knows stays true. -/
theorem BlockInv.step (h : Step a kv b s s') (hne : w ≠ b) (hgrid : a.Grid w) (hw : BlockInv a kv s w (s.pc w)) :
    BlockInv a kv s' w (s'.pc w) := by
  rw [h.pc w hne]
  -- nothing that a block relies on is taken back: claims, ready words and fetched bytes stay
  cases hpc : s.pc w with
  | start => trivial
  | probe n bucket =>
    rw [hpc] at hw
    obtain ⟨hashed, j, hplace, hpassed, hn⟩ := hw
    exact ⟨hashed, j, hplace, h.passed hashed.long hpassed,
      hn.imp_right fun hlost => ⟨hlost.1, h.claimed_ne_none hashed.long hlost.2⟩⟩
  | cas n bucket old =>
    rw [hpc] at hw
    obtain ⟨hashed, hepoch, hold, j, hplace, hpassed, hn⟩ := hw
    refine ⟨hashed, hepoch, ?_, j, hplace, h.passed hashed.long hpassed, hn⟩
    rcases hold with hold | hclaimed
    · exact (h.word w.1 hashed.long bucket).imp_left fun hsame => hsame.trans hold
    · exact .inr (h.claimed_ne_none hashed.long hclaimed)
  | fill bucket =>
    rw [hpc] at hw
    exact ⟨hw.1, (h.filling w hne hgrid bucket (.inl hpc)).1.trans hw.2⟩
  | publish bucket =>
    rw [hpc] at hw
    obtain ⟨hentries, hvalues⟩ := h.filling w hne hgrid bucket (.inr hpc)
    exact ⟨hw.1, hentries.trans hw.2.1, hvalues.trans hw.2.2⟩
  | wait bucket =>
    rw [hpc] at hw
    exact ⟨hw.1, h.claimed w.1 hw.1.long _ _ hw.2⟩
  | take bucket =>
    rw [hpc] at hw
    exact ⟨hw.1, (h.ready w hw.1 bucket hw.2).1.trans hw.2⟩
  | selected d copy =>
    rw [hpc] at hw
    obtain ⟨hrow, hchosen, hcopy, hresident⟩ := hw
    exact ⟨hrow, hchosen.step h, hcopy, fun hc hshort hfalse => h.resident _ _ (hresident hc hshort hfalse)⟩
  | copying dst bytes marked =>
    rw [hpc] at hw
    obtain ⟨hcopies, hdst, hemitted, hbytes, hresident⟩ := hw
    exact ⟨hcopies, hdst, hemitted.step h hne, fun byte hbyte => h.hot w hgrid hcopies byte (hbytes byte hbyte),
      fun hshort hmarked => h.resident _ _ (hresident hshort hmarked)⟩
  | returned copied =>
    rw [hpc] at hw
    obtain ⟨hactive, hinactive, hcopied⟩ := hw
    refine ⟨fun hrow => ?_, fun hrow => ?_, fun hc => ?_⟩
    · exact ⟨(hactive hrow).1.step h hne, fun hcopies hshort => h.resident _ _ ((hactive hrow).2 hcopies hshort)⟩
    · exact ⟨(h.output w hne).trans (hinactive hrow).1,
        fun hi => (h.slots w hne hi).trans ((hinactive hrow).2 hi)⟩
    · exact ⟨(hcopied hc).1, fun byte => h.hot w hgrid (hcopied hc).1 byte ((hcopied hc).2 byte)⟩

/-- A bucket that another block holds stays with it. -/
theorem Holder.step (h : Step a kv b s s') (hne : w ≠ b) (hgrid : a.Grid w) (hashed : a.Hashed w) {bucket : ℕ}
    (hw : Holder a s w bucket) : Holder a s' w bucket := by
  rcases hw with ⟨hword, hfilling⟩ | ⟨hword, hvalue, hpast⟩
  · rw [← h.pc w hne] at hfilling
    exact .inl ⟨(h.filling w hne hgrid bucket (h.pc w hne ▸ hfilling)).1.trans hword, hfilling⟩
  · obtain ⟨hentries, hvalues⟩ := h.ready w hashed bucket hword
    exact .inr ⟨hentries.trans hword, hvalues.trans hvalue, h.past_pc hpast⟩

end Others

end NanoEngine.HiSparse
