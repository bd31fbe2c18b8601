import NanoEngine.HiSparse.Union

/-!
# NanoEngine.HiSparse.Steps — every step of a launch keeps its invariant

* `Step.results`, `LoadInv.step_won`, …: what the other blocks see of each kind of step.
* `LoadInv.next`, `LoadInv.next_same`: the invariant after a step, from that and from what the block itself knows.
* `LoadInv.probes_lt`: the probes of a block suffice.
* `LoadInv.step`: one lemma for each kind of step.
-/

namespace NanoEngine.HiSparse

open Transition Probing

variable {B : Type*} {D : ℕ}

/-! ### What the others see -/

/-- The rows of the cold cache hold what `kv` says. -/
def Backed (a : LoadArgs B D) (kv : ℕ → ℕ → Fin D → B) : Prop :=
  ∀ b, a.Grid b → a.Copies b → a.cold (a.pageOf (a.src b).toNat) = kv (a.slot b.1) (a.logical b).toNat

section Steps

variable {a : LoadArgs B D} {kv : ℕ → ℕ → Fin D → B} {s₀ s s' : LoadState B D}
  {b w : ℕ × ℕ} {pc : LoadPc D}

@[simp] theorem goto_pc_self : (s.goto b pc).pc b = pc := Function.update_self _ _ _

theorem goto_pc_other (hne : w ≠ b) : (s.goto b pc).pc w = s.pc w := Function.update_of_ne hne _ _

theorem storeEntry_self (slot bucket word : ℕ) :
    (s.storeEntry slot bucket word).unionHashEntries (slot, bucket) = word :=
  Function.update_self _ _ _

theorem storeEntry_other {slot bucket slot' bucket' : ℕ} (word : ℕ) (hne : ¬ (slot' = slot ∧ bucket' = bucket)) :
    (s.storeEntry slot bucket word).unionHashEntries (slot', bucket') = s.unionHashEntries (slot', bucket') :=
  Function.update_of_ne (fun h => hne ⟨congrArg Prod.fst h, congrArg Prod.snd h⟩) _ _

theorem storeValue_other {slot bucket slot' bucket' : ℕ} (value : ℕ)
    (hne : ¬ (slot' = slot ∧ bucket' = bucket)) :
    (s.storeValue slot bucket value).unionHashValues (slot', bucket') = s.unionHashValues (slot', bucket') :=
  Function.update_of_ne (fun h => hne ⟨congrArg Prod.fst h, congrArg Prod.snd h⟩) _ _

theorem epoch_lt (a : LoadArgs B D) (row : ℕ) : a.epoch row < 2 ^ 31 := launchEpoch_lt _ _ _

theorem claimed_of_entry {row bucket k : ℕ}
    (hword : s.unionHashEntries (a.slot row, bucket) = pendingWord k (a.epoch row)) :
    claimed a s row bucket = some k := by
  rw [claimed, hword, wordEpoch_pendingWord (epoch_lt a row), wordKey_pendingWord (epoch_lt a row), if_pos rfl]

theorem claimed_of_ready {row bucket k : ℕ}
    (hword : s.unionHashEntries (a.slot row, bucket) = pendingWord k (a.epoch row) ||| 1) :
    claimed a s row bucket = some k := by
  rw [claimed, hword, wordEpoch_or_one, wordKey_or_one, wordEpoch_pendingWord (epoch_lt a row),
    wordKey_pendingWord (epoch_lt a row), if_pos rfl]

theorem claimed_eq_none {row bucket : ℕ} (h : wordEpoch (s.unionHashEntries (a.slot row, bucket)) ≠ a.epoch row) :
    claimed a s row bucket = none := if_neg h

/-- The words of one place agree, so the claims do. -/
theorem claimed_congr {row bucket : ℕ}
    (h : s'.unionHashEntries (a.slot row, bucket) = s.unionHashEntries (a.slot row, bucket)) :
    claimed a s' row bucket = claimed a s row bucket := by
  rw [claimed, claimed, h]

/-- A word with the ready bit is no word without it. -/
theorem pendingWord_ne_ready {k k' : ℕ} (row row' : ℕ) :
    pendingWord k (a.epoch row) ≠ pendingWord k' (a.epoch row') ||| 1 := by
  intro h
  have hready := wordReady_or_one (pendingWord k' (a.epoch row'))
  rw [← h, wordReady_pendingWord (epoch_lt a row)] at hready
  cases hready

/-- A step that writes results and flags, and moves the block. -/
theorem Step.results {t : LoadState B D} (hpc : t.pc = s.pc) (hentries : t.unionHashEntries = s.unionHashEntries)
    (hvalues : t.unionHashValues = s.unionHashValues) (hhot : t.hot = s.hot)
    (hresident : ∀ slot pos, s.residentTokens (slot, pos) = true → t.residentTokens (slot, pos) = true)
    (houtput : ∀ w ≠ b, t.output w = s.output w)
    (hslots : ∀ w ≠ b, w.2 = 0 → t.hotOutputSlots w.1 = s.hotOutputSlots w.1)
    (past : Past (s.pc b) → Past pc) (marked : Marked (s.pc b) → Marked pc) : Step a kv b s (t.goto b pc) where
  pc w hne := (goto_pc_other hne).trans (congrFun hpc w)
  past h := by
    rw [goto_pc_self]
    exact past h
  marked h := by
    rw [goto_pc_self]
    exact marked h
  claimed row _ bucket k h := by
    rw [← h]
    exact claimed_congr (congrFun hentries _)
  word _ _ _ := .inl (congrFun hentries _)
  filling _ _ _ _ _ := ⟨congrFun hentries _, congrFun hvalues _⟩
  ready _ _ _ _ := ⟨congrFun hentries _, congrFun hvalues _⟩
  resident := hresident
  output := houtput
  slots := hslots
  hot w _ _ byte h := (congrFun (congrFun hhot (a.pageOf (a.target w))) byte).trans h

/-- A step that only moves the block. -/
theorem Step.goto (past : Past (s.pc b) → Past pc) (marked : Marked (s.pc b) → Marked pc) :
    Step a kv b s (s.goto b pc) :=
  Step.results rfl rfl rfl rfl (fun _ _ h => h) (fun _ _ => rfl) (fun _ _ _ => rfl) past marked

theorem storeOutput_slots_other (hne : w ≠ b) (hi : w.2 = 0) (hotSlot rowSlot : ℤ) :
    (s.storeOutput b hotSlot rowSlot).hotOutputSlots w.1 = s.hotOutputSlots w.1 := by
  unfold LoadState.storeOutput
  dsimp only
  split
  case isTrue hb => exact Function.update_of_ne (fun h => hne (Prod.ext h (hi.trans hb.symm))) _ _
  case isFalse => rfl

theorem residentTokens_markResident {slot pos slot' pos' : ℕ} :
    (s.markResident slot pos).residentTokens (slot', pos') = true ↔
      s.residentTokens (slot', pos') = true ∨ slot' = slot ∧ pos' = pos := by
  unfold LoadState.markResident
  dsimp only
  by_cases heq : (slot', pos') = (slot, pos)
  · rw [heq, Function.update_self]
    simp only [Prod.mk.injEq] at heq
    exact iff_of_true rfl (.inr heq)
  · rw [Function.update_of_ne heq]
    simp only [Prod.mk.injEq] at heq
    exact (or_iff_left heq).symm

namespace LoadInv

variable (h : LoadInv a kv s₀ s)

include h

/-- The word of a block between the compare-and-swap and the ready bit. -/
theorem filling_word (hgrid : a.Grid w) {bucket : ℕ} (hfilling : Filling (s.pc w) bucket) :
    a.Hashed w ∧ s.unionHashEntries (a.slot w.1, bucket) = pendingWord (a.key w) (a.epoch w.1) := by
  have hblock := h.block w hgrid
  rcases hfilling with hpc | hpc <;> rw [hpc] at hblock
  · exact hblock
  · exact ⟨hblock.1, hblock.2.1⟩

/-- The winner of the compare-and-swap writes its word over one that is not of the launch. -/
theorem step_won (hbatch : a.Batch) {bucket old : ℕ} {n : ℕ} (hgrid : a.Grid b) (hpc : s.pc b = .cas n bucket old)
    (hold : s.unionHashEntries (a.slot b.1, bucket) = old) :
    Step a kv b s ((s.storeEntry (a.slot b.1) bucket (pendingWord (a.key b) (a.epoch b.1))).goto b (.fill bucket)) := by
  have hblock := h.block b hgrid
  rw [hpc] at hblock
  obtain ⟨hashed, hepoch, -⟩ := hblock
  rw [← hold] at hepoch
  -- a word of the launch is elsewhere
  have hother : ∀ row, a.Active row → ∀ bucket',
    wordEpoch (s.unionHashEntries (a.slot row, bucket')) = a.epoch row →
      ¬ (a.slot row = a.slot b.1 ∧ bucket' = bucket) := by
    rintro row hrow bucket' hword ⟨hslot, rfl⟩
    rw [hslot, hbatch.epoch_eq hrow hashed.1.1 hslot] at hword
    exact hepoch hword
  refine ⟨fun w hne => goto_pc_other hne, fun hpast => ?_, fun hmarked => ?_, fun row hrow bucket' k hk => ?_,
    fun row hrow bucket' => ?_, fun w hne hw bucket' hfilling => ?_, fun w hw bucket' hword => ?_, fun _ _ hr => hr,
    fun _ _ => rfl, fun _ _ _ => rfl, fun _ _ _ _ hf => hf⟩
  · rw [hpc] at hpast
    cases hpast
  · rw [hpc] at hmarked
    cases hmarked
  · have hword : wordEpoch (s.unionHashEntries (a.slot row, bucket')) = a.epoch row := by
      by_contra hne
      rw [claimed_eq_none hne] at hk
      cases hk
    rw [← hk]
    exact claimed_congr (storeEntry_other _ (hother row hrow.1 bucket' hword))
  · by_cases heq : a.slot row = a.slot b.1 ∧ bucket' = bucket
    · right
      obtain ⟨hslot, rfl⟩ := heq
      rw [claimed_of_entry (k := a.key b)]
      · exact Option.some_ne_none _
      · rw [hslot, hbatch.epoch_eq hrow.1 hashed.1.1 hslot]
        exact storeEntry_self _ _ _
    · exact .inl (storeEntry_other _ heq)
  · obtain ⟨hw', hword⟩ := h.filling_word hw hfilling
    have hne' := hother w.1 hw'.1.1 bucket' (by rw [hword, wordEpoch_pendingWord (epoch_lt a w.1)])
    exact ⟨storeEntry_other _ hne', rfl⟩
  · have hne' := hother w.1 hw.1.1 bucket' (by
      rw [hword, wordEpoch_or_one, wordEpoch_pendingWord (epoch_lt a w.1)])
    exact ⟨storeEntry_other _ hne', rfl⟩

/-- A bucket is filled by one block. -/
theorem filling_other (hgrid : a.Grid b) {bucket : ℕ} (hb : Filling (s.pc b) bucket) (hne : w ≠ b) (hw : a.Grid w)
    {bucket' : ℕ} (hfilling : Filling (s.pc w) bucket') : ¬ (a.slot w.1 = a.slot b.1 ∧ bucket' = bucket) := by
  rintro ⟨hslot, rfl⟩
  exact hne (h.one w b bucket' hw hgrid hfilling hb hslot)

/-- A published bucket is not the one that a block fills. -/
theorem ready_other (hgrid : a.Grid b) {bucket : ℕ} (hb : Filling (s.pc b) bucket) {bucket' : ℕ}
    (hword : s.unionHashEntries (a.slot w.1, bucket') = pendingWord (a.key w) (a.epoch w.1) ||| 1) :
    ¬ (a.slot w.1 = a.slot b.1 ∧ bucket' = bucket) := by
  rintro ⟨hslot, rfl⟩
  rw [hslot, (h.filling_word hgrid hb).2] at hword
  exact pendingWord_ne_ready b.1 w.1 hword

theorem step_filled {bucket : ℕ} (hgrid : a.Grid b) (hpc : s.pc b = .fill bucket) :
    Step a kv b s ((s.storeValue (a.slot b.1) bucket (a.entry b)).goto b (.publish bucket)) := by
  refine ⟨fun w hne => goto_pc_other hne, fun hpast => ?_, fun hmarked => ?_, fun _ _ _ _ hk => hk,
    fun _ _ _ => .inl rfl, fun w hne hw bucket' hfilling => ⟨rfl, ?_⟩, fun w hw bucket' hword => ⟨rfl, ?_⟩,
    fun _ _ hr => hr, fun _ _ => rfl, fun _ _ _ => rfl, fun _ _ _ _ hf => hf⟩
  · rw [hpc] at hpast
    cases hpast
  · rw [hpc] at hmarked
    cases hmarked
  · exact storeValue_other _ (h.filling_other hgrid (.inl hpc) hne hw hfilling)
  · exact storeValue_other _ (h.ready_other hgrid (.inl hpc) hword)

theorem step_published (hbatch : a.Batch) {bucket : ℕ} (hgrid : a.Grid b) (hpc : s.pc b = .publish bucket) {d : ℤ} :
    Step a kv b s ((s.storeEntry (a.slot b.1) bucket (s.unionHashEntries (a.slot b.1, bucket) ||| 1)).goto b
      (.selected d true)) := by
  -- the block that fills a bucket is the only one that may publish it
  obtain ⟨hashed, hword⟩ := h.filling_word hgrid (.inr hpc)
  refine ⟨fun w hne => goto_pc_other hne, fun hpast => ?_, fun hmarked => ?_, fun row hrow bucket' k hk => ?_,
    fun row hrow bucket' => ?_, fun w hne hw bucket' hfilling => ⟨?_, rfl⟩,
      fun w hw bucket' hready => ⟨?_, rfl⟩,
    fun _ _ hr => hr, fun _ _ => rfl, fun _ _ _ => rfl, fun _ _ _ _ hf => hf⟩
  · rw [hpc] at hpast
    cases hpast
  · rw [hpc] at hmarked
    cases hmarked
  · by_cases heq : a.slot row = a.slot b.1 ∧ bucket' = bucket
    · obtain ⟨hslot, rfl⟩ := heq
      rw [← hk]
      unfold claimed
      rw [hslot]
      change (if wordEpoch ((s.storeEntry (a.slot b.1) bucket' _).unionHashEntries (a.slot b.1, bucket')) = _ then
        some (wordKey ((s.storeEntry (a.slot b.1) bucket' _).unionHashEntries (a.slot b.1, bucket'))) else none) = _
      rw [storeEntry_self, wordEpoch_or_one, wordKey_or_one]
    · rw [← hk]
      exact claimed_congr (storeEntry_other _ heq)
  · by_cases heq : a.slot row = a.slot b.1 ∧ bucket' = bucket
    · right
      obtain ⟨hslot, rfl⟩ := heq
      rw [claimed_of_ready (k := a.key b)]
      · exact Option.some_ne_none _
      · rw [hslot, hbatch.epoch_eq hrow.1 hashed.1.1 hslot, ← hword]
        exact storeEntry_self _ _ _
    · exact .inl (storeEntry_other _ heq)
  · exact storeEntry_other _ (h.filling_other hgrid (.inr hpc) hne hw hfilling)
  · exact storeEntry_other _ (h.ready_other hgrid (.inr hpc) hready)

/-- A byte that is copied to a row is the one that every block copies there. -/
theorem step_byte (hbatch : a.Batch) (hbacked : Backed a kv) {dst : ℕ} {bytes : Finset (Fin D)}
    {marked : Bool} (byte : Fin D) (hgrid : a.Grid b) (hpc : s.pc b = .copying dst bytes marked) :
    Step a kv b s ((s.storeByte (a.pageOf dst) byte (a.cold (a.pageOf (a.src b).toNat) byte)).goto b
      (.copying dst (insert byte bytes) marked)) := by
  have hblock := h.block b hgrid
  rw [hpc] at hblock
  obtain ⟨hcopies, rfl, -⟩ := hblock
  refine ⟨fun w hne => goto_pc_other hne, fun _ => ?_, fun hmarked => ?_, fun _ _ _ _ hk => hk, fun _ _ _ => .inl rfl,
    fun _ _ _ _ _ => ⟨rfl, rfl⟩, fun _ _ _ _ => ⟨rfl, rfl⟩, fun _ _ hr => hr, fun _ _ => rfl, fun _ _ _ => rfl,
    fun w hw hwc byte' hf => ?_⟩
  · rw [goto_pc_self]
    trivial
  · rw [hpc] at hmarked
    rw [goto_pc_self]
    exact hmarked
  · change Function.update s.hot (a.pageOf (a.target b)) (Function.update (s.hot (a.pageOf (a.target b))) byte _)
      (a.pageOf (a.target w)) byte' = _
    by_cases hpage : a.pageOf (a.target w) = a.pageOf (a.target b)
    · rw [hpage, Function.update_self]
      by_cases hbyte : byte' = byte
      · subst hbyte
        obtain ⟨hslot, hlogical⟩ := hbatch.target_inj hw.2 hgrid.2 hwc hcopies (LoadArgs.pageOf_inj hpage)
        rw [Function.update_self, hbacked b hgrid hcopies, hslot, hlogical]
      · rw [Function.update_of_ne hbyte, ← hpage]
        exact hf
    · rw [Function.update_of_ne hpage]
      exact hf

/-! ### The invariant after a step -/

/-- The parts of the invariant that a step keeps by itself. -/
theorem next (hstep : Step a kv b s s') (hclaims : ∀ row, a.Long row →
    Claims a.unionHashCapacity a.home (claimed a s' row))
    (hheld : ∀ row, a.Long row → ∀ bucket k, claimed a s' row bucket = some k →
      ∃ w, a.Grid w ∧ a.Hashed w ∧ a.slot w.1 = a.slot row ∧ a.key w = k ∧ Holder a s' w bucket)
    (hone : ∀ bucket, Filling (s'.pc b) bucket → ∀ w ≠ b, a.Grid w → Filling (s.pc w) bucket →
      a.slot w.1 ≠ a.slot b.1)
    (hblock : BlockInv a kv s' b (s'.pc b))
    (hhot : ∀ page byte, s'.hot page byte = s.hot page byte ∨
      a.Grid b ∧ a.Copies b ∧ page = a.pageOf (a.target b) ∧ Fetched a kv s' b byte)
    (hresident : ∀ slot pos, s'.residentTokens (slot, pos) = true → s.residentTokens (slot, pos) = true ∨
      a.Grid b ∧ a.Active b.1 ∧ a.ShortSequence b.1 ∧ a.slot b.1 = slot ∧
        ((pos : ℤ) = a.outputPos b.1 ∨ a.Copies b ∧ pos = (a.logical b).toNat ∧ Marked (s'.pc b)))
    (htable : ∀ slot bucket, s'.unionHashEntries (slot, bucket) = s.unionHashEntries (slot, bucket) ∨
      a.Grid b ∧ a.Hashed b ∧ a.slot b.1 = slot ∧ wordEpoch (s'.unionHashEntries (slot, bucket)) = a.epoch b.1) :
    LoadInv a kv s₀ s' where
  claims := hclaims
  held := hheld
  -- only `b` moved, so a second filler of a bucket would be `b` and another block
  one v w bucket hv hw hfv hfw hslot := by
    by_cases hvb : v = b
    · subst hvb
      by_contra hne
      rw [hstep.pc w (Ne.symm hne)] at hfw
      exact hone bucket hfv w (Ne.symm hne) hw hfw hslot.symm
    · rw [hstep.pc v hvb] at hfv
      by_cases hwb : w = b
      · subst hwb
        exact absurd hslot (hone bucket hfw v hvb hv hfv)
      · rw [hstep.pc w hwb] at hfw
        exact h.one v w bucket hv hw hfv hfw hslot
  block w hw := by
    by_cases hwb : w = b
    · subst hwb
      exact hblock
    · exact (h.block w hw).step hstep hwb hw
  hot page byte := by
    rcases hhot page byte with hsame | ⟨hgrid, hcopies, hpage, hf⟩
    · rcases h.hot page byte with hold | ⟨w, hw, hwc, hpage, hf⟩
      · exact .inl (hsame.trans hold)
      · exact .inr ⟨w, hw, hwc, hpage, hstep.hot w hw hwc byte hf⟩
    · exact .inr ⟨b, hgrid, hcopies, hpage, hf⟩
  resident slot pos hr := by
    rcases hresident slot pos hr with hr | ⟨hgrid, hrest⟩
    · rcases h.resident slot pos hr with hold | ⟨w, hw, hrow, hshort, hslot, hpos⟩
      · exact .inl hold
      · refine .inr ⟨w, hw, hrow, hshort, hslot, hpos.imp_right fun hmark => ⟨hmark.1, hmark.2.1, ?_⟩⟩
        by_cases hwb : w = b
        · subst hwb
          exact hstep.marked hmark.2.2
        · rw [hstep.pc w hwb]
          exact hmark.2.2
    · exact .inr ⟨b, hgrid, hrest⟩
  kept slot pos hr := hstep.resident slot pos (h.kept slot pos hr)
  table slot bucket := by
    rcases htable slot bucket with hsame | ⟨hgrid, hashed, hslot, hepoch⟩
    · rcases h.table slot bucket with hold | ⟨w, hw, hwh, hslot, hepoch⟩
      · exact .inl (hsame.trans hold)
      · exact .inr ⟨w, hw, hwh, hslot, hsame ▸ hepoch⟩
    · exact .inr ⟨b, hgrid, hashed, hslot, hepoch⟩

/-- A step that leaves the table alone, of a block that is not filling a bucket. -/
theorem next_same (hstep : Step a kv b s s') (hentries : s'.unionHashEntries = s.unionHashEntries)
    (hnot : ∀ bucket, ¬ Filling (s.pc b) bucket) (hnot' : ∀ bucket, ¬ Filling (s'.pc b) bucket)
    (hblock : BlockInv a kv s' b (s'.pc b))
    (hhot : ∀ page byte, s'.hot page byte = s.hot page byte ∨
      a.Grid b ∧ a.Copies b ∧ page = a.pageOf (a.target b) ∧ Fetched a kv s' b byte)
    (hresident : ∀ slot pos, s'.residentTokens (slot, pos) = true → s.residentTokens (slot, pos) = true ∨
      a.Grid b ∧ a.Active b.1 ∧ a.ShortSequence b.1 ∧ a.slot b.1 = slot ∧
        ((pos : ℤ) = a.outputPos b.1 ∨ a.Copies b ∧ pos = (a.logical b).toNat ∧ Marked (s'.pc b))) :
    LoadInv a kv s₀ s' := by
  have hclaimed : ∀ row, claimed a s' row = claimed a s row := fun row =>
    funext fun bucket => claimed_congr (congrFun hentries _)
  refine h.next hstep (fun row hrow => ?_) (fun row hrow bucket k hk => ?_) (fun bucket hf => absurd hf (hnot' bucket))
    hblock hhot hresident fun slot bucket => .inl (congrFun hentries _)
  · rw [hclaimed]
    exact h.claims row hrow
  · rw [hclaimed] at hk
    obtain ⟨w, hw, hwh, hslot, hkey, holder⟩ := h.held row hrow bucket k hk
    refine ⟨w, hw, hwh, hslot, hkey, ?_⟩
    by_cases hwb : w = b
    · subst hwb
      rcases holder with ⟨-, hfilling⟩ | ⟨hword, hvalue, hpast⟩
      · exact absurd hfilling (hnot bucket)
      · obtain ⟨hentries', hvalues⟩ := hstep.ready w hwh bucket hword
        exact .inr ⟨hentries'.trans hword, hvalues.trans hvalue, hstep.past hpast⟩
    · exact holder.step hstep hwb hw hwh

end LoadInv

end Steps

/-! ### The places of a key -/

namespace LoadArgs.Batch

variable {a : LoadArgs B D} {b w : ℕ × ℕ}

theorem and_mask (hb : a.Batch) (n : ℕ) : n &&& (a.unionHashCapacity - 1) = n % a.unionHashCapacity := by
  obtain ⟨m, hm⟩ := hb.hash
  rw [hm]
  exact Nat.and_two_pow_sub_one_eq_mod n m

theorem capacity_pos (hb : a.Batch) : 0 < a.unionHashCapacity := by
  obtain ⟨m, hm⟩ := hb.hash
  rw [hm]
  exact Nat.two_pow_pos m

theorem home_eq (hb : a.Batch) (key : ℕ) : a.home key = place a.unionHashCapacity a.home key 0 := by
  have hlt : a.home key < a.unionHashCapacity := by
    unfold home
    rw [hb.and_mask]
    exact Nat.mod_lt _ hb.capacity_pos
  rw [place, Nat.add_zero, Nat.mod_eq_of_lt hlt]

theorem nextBucket_place (hb : a.Batch) (key j : ℕ) :
    a.nextBucket (place a.unionHashCapacity a.home key j) = place a.unionHashCapacity a.home key (j + 1) := by
  unfold nextBucket
  rw [hb.and_mask, place, place, Nat.mod_add_mod, Nat.add_assoc]

/-- The keys that the blocks of a request look for. -/
def keys (a : LoadArgs B D) (row : ℕ) : Finset ℕ :=
  (Finset.range a.tokensPerSeq ×ˢ Finset.range a.topk).image fun p =>
    a.key (a.reqOffset row * a.tokensPerSeq + p.1, p.2)

theorem card_keys (hb : a.Batch) (row : ℕ) : (keys a row).card ≤ a.hotCapacity :=
  calc (keys a row).card ≤ (Finset.range a.tokensPerSeq ×ˢ Finset.range a.topk).card := Finset.card_image_le
    _ = a.tokensPerSeq * a.topk := by rw [Finset.card_product, Finset.card_range, Finset.card_range]
    _ = a.topk * a.tokensPerSeq := Nat.mul_comm _ _
    _ ≤ a.hotCapacity := hb.union

theorem mem_keys (hgrid : a.Grid w) {row : ℕ} (hreq : a.reqOffset w.1 = a.reqOffset row) :
    a.key w ∈ keys a row := by
  refine Finset.mem_image.2 ⟨(a.tokenStep w.1, w.2), Finset.mem_product.2 ⟨?_, ?_⟩, ?_⟩
  · exact Finset.mem_range.2 (a.tokenStep_lt w.1)
  · exact Finset.mem_range.2 hgrid.2
  · have hmod := Nat.div_add_mod' w.1 a.tokensPerSeq
    have hrow : a.reqOffset row * a.tokensPerSeq + a.tokenStep w.1 = w.1 := by
      rw [← hreq]
      unfold tokenStep reqOffset
      omega
    dsimp only
    rw [hrow]

end LoadArgs.Batch

namespace LoadInv

section Probing

variable {a : LoadArgs B D} {kv : ℕ → ℕ → Fin D → B} {s₀ s s' : LoadState B D} {b w : ℕ × ℕ}

/-- **The probes suffice**: a block passes fewer places than its request has keys, with two probes for each. -/
theorem probes_lt (h : LoadInv a kv s₀ s) (hbatch : a.Batch) (hgrid : a.Grid b) (hashed : a.Hashed b) {j : ℕ}
    (hpassed : Passed a.unionHashCapacity a.home (claimed a s b.1) (a.key b) j) : 2 * j + 1 < a.unionHashCapacity := by
  have hcard := LoadArgs.Batch.card_keys hbatch b.1
  have hroom := hbatch.room
  have hlt := hpassed.lt_card (h.claims b.1 hashed.long) (S := LoadArgs.Batch.keys a b.1) (fun bucket k hk => ?_)
    (LoadArgs.Batch.mem_keys hgrid rfl) (by omega)
  · omega
  · obtain ⟨w, hw, hwh, hslot, rfl, -⟩ := h.held b.1 hashed.long bucket k hk
    exact LoadArgs.Batch.mem_keys hw ((hbatch.request _ _ hwh.1.1 hashed.1.1).1 hslot)

/-- The holder of a bucket whose word has the ready bit. -/
theorem holder_ready (h : LoadInv a kv s₀ s) (hbatch : a.Batch) (hashed : a.Hashed b) {bucket : ℕ}
    (hclaimed : claimed a s b.1 bucket = some (a.key b))
    (hready : wordReady (s.unionHashEntries (a.slot b.1, bucket)) = true) :
    ∃ w, a.Twin b w ∧ Past (s.pc w) ∧ s.unionHashValues (a.slot b.1, bucket) = a.entry w ∧
      s.unionHashEntries (a.slot b.1, bucket) = pendingWord (a.key b) (a.epoch b.1) ||| 1 := by
  obtain ⟨w, hw, hwh, hslot, hkey, holder⟩ := h.held b.1 hashed.long bucket _ hclaimed
  rcases holder with ⟨hword, -⟩ | ⟨hword, hvalue, hpast⟩
  · rw [← hslot, hword, wordReady_pendingWord (epoch_lt a w.1)] at hready
    cases hready
  · rw [hslot] at hword hvalue
    rw [hkey, hbatch.epoch_eq hwh.1.1 hashed.1.1 hslot] at hword
    exact ⟨w, ⟨hw, hwh, hslot, hkey⟩, hpast, hvalue, hword⟩

end Probing

/-! ### One lemma for each kind of step -/

section Cases

variable {a : LoadArgs B D} {kv : ℕ → ℕ → Fin D → B} {s₀ s s' : LoadState B D}
  {b : ℕ × ℕ} {pc : LoadPc D}

/-- A step that only moves the block. -/
theorem goto (h : LoadInv a kv s₀ s) (past : Past (s.pc b) → Past pc) (marked : Marked (s.pc b) → Marked pc)
    (hnot : ∀ bucket, ¬ Filling (s.pc b) bucket) (hnot' : ∀ bucket, ¬ Filling pc bucket)
    (hblock : BlockInv a kv (s.goto b pc) b pc) : LoadInv a kv s₀ (s.goto b pc) := by
  refine h.next_same (Step.goto past marked) rfl hnot (fun bucket => ?_) ?_ (fun _ _ => .inl rfl) fun _ _ hr => .inl hr
  · rw [goto_pc_self]
    exact hnot' bucket
  · rw [goto_pc_self]
    exact hblock

theorem not_filling_pc (hfill : ∀ bucket, pc ≠ .fill bucket)
    (hpublish : ∀ bucket, pc ≠ .publish bucket) (bucket : ℕ) :
    ¬ Filling pc bucket := by
  rintro (hf | hf)
  · exact hfill bucket hf
  · exact hpublish bucket hf

theorem not_filling (hpc : s.pc b = pc) (hfill : ∀ bucket, pc ≠ .fill bucket)
    (hpublish : ∀ bucket, pc ≠ .publish bucket)
    (bucket : ℕ) : ¬ Filling (s.pc b) bucket := by
  rw [hpc]
  exact not_filling_pc hfill hpublish bucket

/-- A step to the selection of a hot slot without a copy of one's own. -/
theorem select (h : LoadInv a kv s₀ s) (hrow : a.Active b.1) (hpast : ¬ Past (s.pc b)) (hmarked : ¬ Marked (s.pc b))
    (hnot : ∀ bucket, ¬ Filling (s.pc b) bucket) {d : ℤ} (hchosen : Chosen a (s.goto b (.selected d false)) b d)
    (hresident : a.Copies b → a.ShortSequence b.1 → Resident a s b) :
    LoadInv a kv s₀ (s.goto b (.selected d false)) :=
  h.goto (fun hp => absurd hp hpast) (fun hm => absurd hm hmarked) hnot
    (not_filling_pc (by simp) (by simp))
    ⟨hrow, hchosen, fun hfalse => Bool.noConfusion hfalse, fun hc hs _ => hresident hc hs⟩

theorem short (h : LoadInv a kv s₀ s) (hpc : s.pc b = .start) (hrow : a.Active b.1) (hvalid : a.Valid b)
    (hshort : a.ShortSequence b.1) : LoadInv a kv s₀ (s.goto b (.selected ((a.hotBase b.1 : ℤ) + a.logical b)
      (!decide (a.OutputSpan b) && !s.residentTokens (a.slot b.1, (a.logical b).toNat)))) := by
  have hnonneg := hvalid.2.1
  refine h.goto (fun hp => ?_) (fun hm => ?_) (not_filling hpc (by simp) (by simp))
    (not_filling_pc (by simp) (by simp)) ⟨hrow, .short hvalid hshort, fun hcopy => ?_, fun hc _ hcopy => ?_⟩
  · rw [hpc] at hp
    cases hp
  · rw [hpc] at hm
    cases hm
  · rw [Bool.and_eq_true, Bool.not_eq_true', decide_eq_false_iff_not] at hcopy
    refine ⟨⟨hrow, hvalid, hcopy.1⟩, ?_⟩
    rw [LoadArgs.target, if_pos hshort]
    omega
  · have hspan : decide (a.OutputSpan b) = false := decide_eq_false hc.2.2
    rw [hspan, Bool.not_false, Bool.true_and, Bool.not_eq_false'] at hcopy
    exact hcopy

theorem look (h : LoadInv a kv s₀ s) (hbatch : a.Batch) (hpc : s.pc b = .start) (hashed : a.Hashed b) :
    LoadInv a kv s₀ (s.goto b (.probe 0 (a.home (a.key b)))) := by
  refine h.goto (fun hp => ?_) (fun hm => ?_) (not_filling hpc (by simp) (by simp))
    (not_filling_pc (by simp) (by simp))
    ⟨hashed, 0, LoadArgs.Batch.home_eq hbatch _, Passed.zero, .inl (Nat.le_refl 0)⟩
  · rw [hpc] at hp
    cases hp
  · rw [hpc] at hm
    cases hm

/-- The steps of the probing that write nothing. -/
theorem probing (h : LoadInv a kv s₀ s) (hpast : ¬ Past (s.pc b)) (hmarked : ¬ Marked (s.pc b))
    (hnot : ∀ bucket, ¬ Filling (s.pc b) bucket) (hnot' : ∀ bucket, ¬ Filling pc bucket)
    (hblock : BlockInv a kv s b pc) (hpc : ∀ d copy, pc ≠ .selected d copy)
    (hpc' : ∀ copied, pc ≠ .returned copied)
    (hpc'' : ∀ dst bytes marked, pc ≠ .copying dst bytes marked) : LoadInv a kv s₀ (s.goto b pc) := by
  refine h.goto (fun hp => absurd hp hpast) (fun hm => absurd hm hmarked) hnot hnot' ?_
  cases pc with
  | selected d copy => exact absurd rfl (hpc d copy)
  | returned copied => exact absurd rfl (hpc' copied)
  | copying dst bytes marked => exact absurd rfl (hpc'' dst bytes marked)
  | _ => exact hblock

theorem stale (h : LoadInv a kv s₀ s) (hgrid : a.Grid b) {n bucket : ℕ} (hpc : s.pc b = .probe n bucket)
    (hepoch : wordEpoch (s.unionHashEntries (a.slot b.1, bucket)) ≠ a.epoch b.1) :
    LoadInv a kv s₀ (s.goto b (.cas n bucket (s.unionHashEntries (a.slot b.1, bucket)))) := by
  have hblock := h.block b hgrid
  rw [hpc] at hblock
  obtain ⟨hashed, j, hplace, hpassed, hn⟩ := hblock
  have hle : n ≤ 2 * j := hn.resolve_right fun hlost => hlost.2 (claimed_eq_none hepoch)
  refine h.probing ?_ ?_ (not_filling hpc (by simp) (by simp)) (not_filling_pc (by simp) (by simp))
    ⟨hashed, hepoch, .inl rfl, j, hplace, hpassed, hle⟩ (by simp) (by simp) (by simp) <;> rw [hpc] <;> exact id

theorem found (h : LoadInv a kv s₀ s) (hgrid : a.Grid b) {n bucket : ℕ} (hpc : s.pc b = .probe n bucket)
    (hepoch : wordEpoch (s.unionHashEntries (a.slot b.1, bucket)) = a.epoch b.1)
    (hkey : wordKey (s.unionHashEntries (a.slot b.1, bucket)) = a.key b) :
      LoadInv a kv s₀ (s.goto b (.wait bucket)) := by
  have hblock := h.block b hgrid
  rw [hpc] at hblock
  have hclaimed : claimed a s b.1 bucket = some (a.key b) := (if_pos hepoch).trans (congrArg some hkey)
  refine h.probing ?_ ?_ (not_filling hpc (by simp) (by simp)) (not_filling_pc (by simp) (by simp))
    ⟨hblock.1, hclaimed⟩ (by simp) (by simp) (by simp) <;> rw [hpc] <;> exact id

theorem pass (h : LoadInv a kv s₀ s) (hbatch : a.Batch) (hgrid : a.Grid b) {n bucket : ℕ}
    (hpc : s.pc b = .probe n bucket)
    (hepoch : wordEpoch (s.unionHashEntries (a.slot b.1, bucket)) = a.epoch b.1)
    (hkey : wordKey (s.unionHashEntries (a.slot b.1, bucket)) ≠ a.key b) :
    LoadInv a kv s₀ (s.goto b (.probe (n + 1) (a.nextBucket bucket))) := by
  have hblock := h.block b hgrid
  rw [hpc] at hblock
  obtain ⟨hashed, j, rfl, hpassed, hn⟩ := hblock
  have hclaimed : claimed a s b.1 (place a.unionHashCapacity a.home (a.key b) j) = some _ := if_pos hepoch
  have hn' : n + 1 ≤ 2 * (j + 1) := by
    rcases hn with hn | ⟨hn, -⟩ <;> omega
  refine h.probing ?_ ?_ (not_filling hpc (by simp) (by simp)) (not_filling_pc (by simp) (by simp))
    ⟨hashed, j + 1, LoadArgs.Batch.nextBucket_place hbatch _ _, hpassed.succ hkey hclaimed, .inl hn'⟩
    (by simp) (by simp) (by simp) <;> rw [hpc] <;> exact id

/-- A compare-and-swap fails against a block that has claimed the place, so the place fails once. -/
theorem lost (h : LoadInv a kv s₀ s) (hgrid : a.Grid b) {n bucket old : ℕ} (hpc : s.pc b = .cas n bucket old)
    (hold : s.unionHashEntries (a.slot b.1, bucket) ≠ old) :
      LoadInv a kv s₀ (s.goto b (.probe (n + 1) bucket)) := by
  have hblock := h.block b hgrid
  rw [hpc] at hblock
  obtain ⟨hashed, -, hclaimed, j, hplace, hpassed, hn⟩ := hblock
  refine h.probing ?_ ?_ (not_filling hpc (by simp) (by simp)) (not_filling_pc (by simp) (by simp))
    ⟨hashed, j, hplace, hpassed, .inr ⟨by omega, hclaimed.resolve_left hold⟩⟩ (by simp) (by simp) (by simp) <;>
    rw [hpc] <;> exact id

theorem ready (h : LoadInv a kv s₀ s) (hbatch : a.Batch) (hgrid : a.Grid b) {bucket : ℕ}
    (hpc : s.pc b = .wait bucket)
    (hready : wordReady (s.unionHashEntries (a.slot b.1, bucket)) = true) :
      LoadInv a kv s₀ (s.goto b (.take bucket)) := by
  have hblock := h.block b hgrid
  rw [hpc] at hblock
  obtain ⟨-, -, -, -, hword⟩ := h.holder_ready hbatch hblock.1 hblock.2 hready
  refine h.probing ?_ ?_ (not_filling hpc (by simp) (by simp)) (not_filling_pc (by simp) (by simp))
    ⟨hblock.1, hword⟩ (by simp) (by simp) (by simp) <;> rw [hpc] <;> exact id

theorem taken (h : LoadInv a kv s₀ s) (hbatch : a.Batch) (hgrid : a.Grid b) {bucket : ℕ}
    (hpc : s.pc b = .take bucket) :
    LoadInv a kv s₀
      (s.goto b (.selected ((a.hotBase b.1 : ℤ) + (s.unionHashValues (a.slot b.1, bucket) : ℤ)) false)) := by
  have hblock := h.block b hgrid
  rw [hpc] at hblock
  obtain ⟨hashed, hword⟩ := hblock
  have hready : wordReady (s.unionHashEntries (a.slot b.1, bucket)) = true := by
    rw [hword]
    exact wordReady_or_one _
  obtain ⟨w, htwin, hpast, hvalue, -⟩ := h.holder_ready hbatch hashed (claimed_of_ready hword) hready
  have hwb : w ≠ b := by
    rintro rfl
    rw [hpc] at hpast
    cases hpast
  have hchosen : (a.hotBase b.1 : ℤ) + (s.unionHashValues (a.slot b.1, bucket) : ℤ) = (a.target w : ℤ) := by
    rw [hvalue, LoadArgs.target, if_neg htwin.hashed.2, LoadArgs.hotBase, LoadArgs.hotBase, htwin.slot]
    push_cast
    rfl
  rw [hchosen]
  refine h.select hashed.1.1 ?_ ?_ (not_filling hpc (by simp) (by simp))
    (.union w hashed htwin ((goto_pc_other hwb).symm ▸ hpast)) fun _ hshort => absurd hshort hashed.2
  all_goals rw [hpc]; exact id

theorem won (h : LoadInv a kv s₀ s) (hbatch : a.Batch) (hgrid : a.Grid b) {n bucket old : ℕ}
    (hpc : s.pc b = .cas n bucket old) (hold : s.unionHashEntries (a.slot b.1, bucket) = old) :
    LoadInv a kv s₀
      ((s.storeEntry (a.slot b.1) bucket (pendingWord (a.key b) (a.epoch b.1))).goto b (.fill bucket)) := by
  have hstep := h.step_won hbatch hgrid hpc hold
  have hblock := h.block b hgrid
  rw [hpc] at hblock
  obtain ⟨hashed, hepoch, -, j, hplace, hpassed, -⟩ := hblock
  rw [← hold] at hepoch
  have hnone : claimed a s b.1 bucket = none := claimed_eq_none hepoch
  have hword : ((s.storeEntry (a.slot b.1) bucket (pendingWord (a.key b) (a.epoch b.1))).goto b
      (.fill bucket)).unionHashEntries (a.slot b.1, bucket) = pendingWord (a.key b) (a.epoch b.1) :=
        storeEntry_self _ _ _
  -- the word was stale, so nobody claimed the bucket, and `b` is past every claimed bucket of its probes
  refine h.next hstep (fun row hrow => ?_) (fun row hrow bucket' k hk => ?_)
    (fun bucket' hf w hne hw hfw hslot => ?_) ?_
    (fun _ _ => .inl rfl) (fun _ _ hr => .inl hr) fun slot bucket' => ?_
  · by_cases hslot : a.slot row = a.slot b.1
    · have hrowEpoch := hbatch.epoch_eq hrow.1 hashed.1.1 hslot
      have hsame : claimed a s row = claimed a s b.1 := by
        funext bucket'
        rw [claimed, claimed, hslot, hrowEpoch]
      have hclaims := h.claims row hrow
      rw [hsame] at hclaims
      have hupdate : claimed a ((s.storeEntry (a.slot b.1) bucket (pendingWord (a.key b) (a.epoch b.1))).goto b
          (.fill bucket)) row = Function.update (claimed a s b.1) bucket (some (a.key b)) := by
        funext bucket'
        by_cases hbucket : bucket' = bucket
        · subst hbucket
          rw [Function.update_self]
          refine claimed_of_entry ?_
          rw [hslot, hrowEpoch]
          exact hword
        · rw [Function.update_of_ne hbucket, ← hsame]
          exact claimed_congr (storeEntry_other _ fun heq => hbucket heq.2)
      rw [hupdate, hplace]
      exact hclaims.claim (hplace ▸ hnone) hpassed
    · have hsame : claimed a ((s.storeEntry (a.slot b.1) bucket (pendingWord (a.key b) (a.epoch b.1))).goto b
          (.fill bucket)) row = claimed a s row :=
        funext fun bucket' => claimed_congr (storeEntry_other _ fun heq => hslot heq.1)
      rw [hsame]
      exact h.claims row hrow
  · by_cases heq : a.slot row = a.slot b.1 ∧ bucket' = bucket
    · obtain ⟨hslot, rfl⟩ := heq
      have hk' : claimed a ((s.storeEntry (a.slot b.1) bucket' (pendingWord (a.key b) (a.epoch b.1))).goto b
          (.fill bucket')) row bucket' = some (a.key b) := by
        refine claimed_of_entry ?_
        rw [hslot, hbatch.epoch_eq hrow.1 hashed.1.1 hslot]
        exact hword
      rw [hk'] at hk
      cases hk
      exact ⟨b, hgrid, hashed, hslot.symm, rfl, .inl ⟨hword, .inl goto_pc_self⟩⟩
    · have hsame : claimed a ((s.storeEntry (a.slot b.1) bucket (pendingWord (a.key b) (a.epoch b.1))).goto b
          (.fill bucket)) row bucket' = claimed a s row bucket' := claimed_congr (storeEntry_other _ heq)
      rw [hsame] at hk
      obtain ⟨w, hw, hwh, hslot, hkey, holder⟩ := h.held row hrow bucket' k hk
      have hwb : w ≠ b := by
        rintro rfl
        rcases holder with ⟨-, hf | hf⟩ | ⟨-, -, hp⟩
        · rw [hpc] at hf
          cases hf
        · rw [hpc] at hf
          cases hf
        · rw [hpc] at hp
          exact hp
      exact ⟨w, hw, hwh, hslot, hkey, holder.step hstep hwb hw hwh⟩
  -- another filler of this bucket would have written a word of this epoch
  · have hbucket : bucket' = bucket := by
      rw [goto_pc_self] at hf
      rcases hf with hf | hf <;> cases hf
      rfl
    subst hbucket
    obtain ⟨hwh, hwword⟩ := h.filling_word hw hfw
    rw [← hslot, hwword, wordEpoch_pendingWord (epoch_lt a w.1), hbatch.epoch_eq hwh.1.1 hashed.1.1 hslot] at hepoch
    exact hepoch rfl
  · rw [goto_pc_self]
    exact ⟨hashed, hword⟩
  · by_cases heq : slot = a.slot b.1 ∧ bucket' = bucket
    · obtain ⟨rfl, rfl⟩ := heq
      refine .inr ⟨hgrid, hashed, rfl, ?_⟩
      rw [hword]
      exact wordEpoch_pendingWord (epoch_lt a b.1)
    · exact .inl (storeEntry_other _ heq)

theorem filled (h : LoadInv a kv s₀ s) (hgrid : a.Grid b) {bucket : ℕ} (hpc : s.pc b = .fill bucket) :
    LoadInv a kv s₀ ((s.storeValue (a.slot b.1) bucket (a.entry b)).goto b (.publish bucket)) := by
  have hstep := h.step_filled hgrid hpc
  obtain ⟨hashed, hword⟩ := h.filling_word hgrid (.inl hpc)
  refine h.next hstep (fun row hrow => h.claims row hrow) (fun row hrow bucket' k hk => ?_)
    (fun bucket' hf w hne hw hfw hslot => ?_) ?_ (fun _ _ => .inl rfl) (fun _ _ hr => .inl hr) fun _ _ => .inl rfl
  · obtain ⟨w, hw, hwh, hslot, hkey, holder⟩ := h.held row hrow bucket' k hk
    refine ⟨w, hw, hwh, hslot, hkey, ?_⟩
    by_cases hwb : w = b
    · subst hwb
      rcases holder with ⟨hword', hf | hf⟩ | ⟨-, -, hp⟩
      · rw [hpc] at hf
        cases hf
        exact .inl ⟨hword', .inr goto_pc_self⟩
      · rw [hpc] at hf
        cases hf
      · rw [hpc] at hp
        exact hp.elim
    · exact holder.step hstep hwb hw hwh
  · rw [goto_pc_self] at hf
    rcases hf with hf | hf <;> cases hf
    exact h.filling_other hgrid (.inl hpc) hne hw hfw ⟨hslot, rfl⟩
  · rw [goto_pc_self]
    exact ⟨hashed, hword, Function.update_self _ _ _⟩

theorem published (h : LoadInv a kv s₀ s) (hbatch : a.Batch) (hgrid : a.Grid b) {bucket : ℕ}
    (hpc : s.pc b = .publish bucket) : LoadInv a kv s₀
      ((s.storeEntry (a.slot b.1) bucket (s.unionHashEntries (a.slot b.1, bucket) ||| 1)).goto b
        (.selected ((a.hotBase b.1 : ℤ) + (a.entry b : ℤ)) true)) := by
  have hstep := h.step_published hbatch hgrid hpc (d := (a.hotBase b.1 : ℤ) + (a.entry b : ℤ))
  have hblock := h.block b hgrid
  rw [hpc] at hblock
  obtain ⟨hashed, hword, hvalue⟩ := hblock
  have hword' : ((s.storeEntry (a.slot b.1) bucket (s.unionHashEntries (a.slot b.1, bucket) ||| 1)).goto b
      (.selected ((a.hotBase b.1 : ℤ) + (a.entry b : ℤ)) true)).unionHashEntries (a.slot b.1, bucket) =
      pendingWord (a.key b) (a.epoch b.1) ||| 1 := by
    rw [← hword]
    exact storeEntry_self _ _ _
  -- the ready bit is no part of the claim
  have hclaimed :
    ∀ row, claimed a ((s.storeEntry (a.slot b.1) bucket (s.unionHashEntries (a.slot b.1, bucket) ||| 1)).goto b
      (.selected ((a.hotBase b.1 : ℤ) + (a.entry b : ℤ)) true)) row = claimed a s row := by
    intro row
    funext bucket'
    by_cases heq : a.slot row = a.slot b.1 ∧ bucket' = bucket
    · obtain ⟨hslot, rfl⟩ := heq
      rw [claimed, claimed, hslot, hword', ← hword, wordEpoch_or_one, wordKey_or_one]
    · exact claimed_congr (storeEntry_other _ heq)
  have htarget : (a.hotBase b.1 : ℤ) + (a.entry b : ℤ) = (a.target b : ℤ) := by
    rw [LoadArgs.target, if_neg hashed.2]
    push_cast
    rfl
  refine h.next hstep (fun row hrow => ?_) (fun row hrow bucket' k hk => ?_) (fun bucket' hf => ?_) ?_
    (fun _ _ => .inl rfl) (fun _ _ hr => .inl hr) fun slot bucket' => ?_
  · rw [hclaimed]
    exact h.claims row hrow
  · rw [hclaimed] at hk
    obtain ⟨w, hw, hwh, hslot, hkey, holder⟩ := h.held row hrow bucket' k hk
    refine ⟨w, hw, hwh, hslot, hkey, ?_⟩
    by_cases hwb : w = b
    · subst hwb
      rcases holder with ⟨-, hf | hf⟩ | ⟨-, -, hp⟩
      · rw [hpc] at hf
        cases hf
      · rw [hpc] at hf
        cases hf
        exact .inr ⟨hword', hvalue, by rw [goto_pc_self]; rfl⟩
      · rw [hpc] at hp
        exact hp.elim
    · exact holder.step hstep hwb hw hwh
  · rw [goto_pc_self] at hf
    rcases hf with hf | hf <;> cases hf
  · rw [goto_pc_self]
    refine ⟨hashed.1.1, ?_, fun _ => ⟨hashed.1, htarget⟩, fun _ hshort => absurd hshort hashed.2⟩
    rw [htarget]
    refine .union b hashed (LoadArgs.Twin.refl hgrid hashed) ?_
    rw [goto_pc_self]
    rfl
  · by_cases heq : slot = a.slot b.1 ∧ bucket' = bucket
    · obtain ⟨rfl, rfl⟩ := heq
      refine .inr ⟨hgrid, hashed, rfl, ?_⟩
      rw [hword', wordEpoch_or_one]
      exact wordEpoch_pendingWord (epoch_lt a b.1)
    · exact .inl (storeEntry_other _ heq)

theorem storeOutput_slots (hi : b.2 = 0) (hotSlot rowSlot : ℤ) :
    (s.storeOutput b hotSlot rowSlot).hotOutputSlots b.1 = rowSlot := by
  unfold LoadState.storeOutput
  dsimp only
  rw [if_pos hi, Function.update_self]

theorem inactive (h : LoadInv a kv s₀ s) (hpc : s.pc b = .start) (hrow : ¬ a.Active b.1) :
    LoadInv a kv s₀ ((s.storeOutput b (-1) (-1)).goto b (.returned false)) := by
  have hstep : Step a kv b s ((s.storeOutput b (-1) (-1)).goto b (.returned false)) := by
    refine Step.results rfl rfl rfl rfl (fun _ _ hr => hr) (fun _ hne => Function.update_of_ne hne _ _)
      (fun _ hne hi => storeOutput_slots_other hne hi _ _) (fun hp => ?_) fun hm => ?_
    · rw [hpc] at hp
      cases hp
    · rw [hpc] at hm
      cases hm
  refine h.next_same hstep rfl (not_filling hpc (by simp) (by simp)) (fun bucket => ?_) ?_ (fun _ _ => .inl rfl)
    fun _ _ hr => .inl hr
  · rw [goto_pc_self]
    exact not_filling_pc (by simp) (by simp) bucket
  · rw [goto_pc_self]
    exact ⟨fun hactive => absurd hactive hrow,
      fun _ => ⟨Function.update_self _ _ _, fun hi => storeOutput_slots hi (-1) (-1)⟩, fun hfalse =>
        Bool.noConfusion hfalse⟩

/-- The memory after the results of a block. -/
theorem emit_spec (d : ℤ) : (a.emit s b d).pc = s.pc ∧ (a.emit s b d).unionHashEntries = s.unionHashEntries ∧
    (a.emit s b d).unionHashValues = s.unionHashValues ∧ (a.emit s b d).hot = s.hot ∧
    (a.emit s b d).output = (s.storeOutput b d (a.hotOutputSlot b.1)).output ∧
    (a.emit s b d).hotOutputSlots = (s.storeOutput b d (a.hotOutputSlot b.1)).hotOutputSlots := by
  unfold LoadArgs.emit
  dsimp only
  split <;> exact ⟨rfl, rfl, rfl, rfl, rfl, rfl⟩

theorem residentTokens_emit {d : ℤ} {slot pos : ℕ} : (a.emit s b d).residentTokens (slot, pos) = true ↔
    s.residentTokens (slot, pos) = true ∨ slot = a.slot b.1 ∧ b.2 = 0 ∧ a.ShortSequence b.1 ∧
    (pos : ℤ) = a.outputPos b.1 ∧
      a.outputPos b.1 < (a.hotCapacity : ℤ) := by
  unfold LoadArgs.emit
  dsimp only
  split
  case isTrue hmark =>
    obtain ⟨hi, hshort, hnonneg, hlt⟩ := hmark
    rw [residentTokens_markResident]
    refine or_congr Iff.rfl (and_congr_right fun _ => ?_)
    constructor
    · intro hpos
      exact ⟨hi, hshort, by omega, hlt⟩
    · rintro ⟨-, -, hpos, -⟩
      omega
  case isFalse hmark =>
    refine (or_iff_left ?_).symm
    rintro ⟨-, hi, hshort, hpos, hlt⟩
    exact hmark ⟨hi, hshort, by omega, hlt⟩

/-- The results are stored, and the block goes on to `pc`. -/
theorem emit (h : LoadInv a kv s₀ s) (hgrid : a.Grid b) {d : ℤ} {copy : Bool} (hpc : s.pc b = .selected d copy)
    (hpast : copy = true → Past pc) (hnot : ∀ bucket, ¬ Filling pc bucket)
    (hblock : Step a kv b s ((a.emit s b d).goto b pc) → Emitted a ((a.emit s b d).goto b pc) b →
      BlockInv a kv ((a.emit s b d).goto b pc) b pc) : LoadInv a kv s₀ ((a.emit s b d).goto b pc) := by
  have hblock₀ := h.block b hgrid
  rw [hpc] at hblock₀
  obtain ⟨hrow, hchosen, -⟩ := hblock₀
  obtain ⟨hpcs, hentries, hvalues, hhot, houtput, hslots⟩ := emit_spec (a := a) (s := s) (b := b) d
  -- only the results are written: hash table and bytes stay
  have hstep : Step a kv b s ((a.emit s b d).goto b pc) := by
    refine Step.results hpcs hentries hvalues hhot (fun _ _ hr => residentTokens_emit.2 (.inl hr)) (fun w hne => ?_)
      (fun w hne hi => ?_) (fun hp => ?_) fun hm => ?_
    · rw [houtput]
      exact Function.update_of_ne hne _ _
    · rw [hslots]
      exact storeOutput_slots_other hne hi _ _
    · rw [hpc] at hp
      exact hpast hp
    · rw [hpc] at hm
      cases hm
  have hemitted : Emitted a ((a.emit s b d).goto b pc) b := by
    refine ⟨?_, fun hi => (congrFun hslots b.1).trans (storeOutput_slots hi _ _)⟩
    have hout : ((a.emit s b d).goto b pc).output b = d := (congrFun houtput b).trans (Function.update_self _ _ _)
    rw [hout]
    exact hchosen.step hstep
  refine h.next_same hstep hentries (not_filling hpc (by simp) (by simp)) (fun bucket => ?_) ?_
    (fun page byte => .inl (congrFun (congrFun hhot page) byte)) fun slot pos hr => ?_
  · rw [goto_pc_self]
    exact hnot bucket
  · rw [goto_pc_self]
    exact hblock hstep hemitted
  · refine (residentTokens_emit.1 hr).imp_right fun ⟨hslot, _, hshort, hpos, _⟩ => ?_
    exact ⟨hgrid, hrow, hshort, hslot.symm, .inl hpos⟩

theorem emitted (h : LoadInv a kv s₀ s) (hgrid : a.Grid b) {d : ℤ} {copy : Bool} (hpc : s.pc b = .selected d copy) :
    LoadInv a kv s₀ ((a.emit s b d).goto b
      (if a.Valid b ∧ copy = true then .copying d.toNat ∅ false else .returned false)) := by
  have hblock := h.block b hgrid
  rw [hpc] at hblock
  obtain ⟨hrow, -, hcopy, hresident⟩ := hblock
  split
  case isTrue hvc =>
    obtain ⟨hcopies, hd⟩ := hcopy hvc.2
    refine h.emit hgrid hpc (fun _ => trivial) (not_filling_pc (by simp) (by simp)) fun _ hemitted => ?_
    exact ⟨hcopies, by omega, hemitted, fun byte hbyte => absurd hbyte (Finset.notMem_empty _),
      fun _ hfalse => Bool.noConfusion hfalse⟩
  case isFalse hvc =>
    have hfalse : a.Valid b → copy = false := fun hvalid => Bool.eq_false_iff.2 fun htrue => hvc ⟨hvalid, htrue⟩
    refine h.emit hgrid hpc (fun htrue => absurd ⟨(hcopy htrue).1.2.1, htrue⟩ hvc)
      (not_filling_pc (by simp) (by simp))
      fun hstep hemitted => ⟨fun _ => ⟨hemitted, fun hcopies hshort => ?_⟩, fun hnot => absurd hrow hnot,
        fun hfalse => Bool.noConfusion hfalse⟩
    exact hstep.resident _ _ (hresident hcopies hshort (hfalse hcopies.2.1))

theorem marked (h : LoadInv a kv s₀ s) (hgrid : a.Grid b) {dst : ℕ} {bytes : Finset (Fin D)}
    (hpc : s.pc b = .copying dst bytes false) : LoadInv a kv s₀
      ((if a.ShortSequence b.1 then s.markResident (a.slot b.1) (a.logical b).toNat else s).goto b
        (.copying dst bytes true)) := by
  have hblock := h.block b hgrid
  rw [hpc] at hblock
  obtain ⟨hcopies, hdst, hemitted, hbytes, -⟩ := hblock
  by_cases hshort : a.ShortSequence b.1
  · rw [if_pos hshort]
    have hstep : Step a kv b s ((s.markResident (a.slot b.1) (a.logical b).toNat).goto b (.copying dst bytes true)) :=
      Step.results rfl rfl rfl rfl (fun _ _ hr => residentTokens_markResident.2 (.inl hr)) (fun _ _ => rfl)
        (fun _ _ _ => rfl) (fun _ => trivial) fun _ => rfl
    refine h.next_same hstep rfl (not_filling hpc (by simp) (by simp)) (fun bucket => ?_) ?_ (fun _ _ => .inl rfl)
      fun slot pos hr => ?_
    · rw [goto_pc_self]
      exact not_filling_pc (by simp) (by simp) bucket
    · rw [goto_pc_self]
      exact ⟨hcopies, hdst, ⟨hemitted.output.step hstep, hemitted.slots⟩, hbytes,
        fun _ _ => residentTokens_markResident.2 (.inr ⟨rfl, rfl⟩)⟩
    · refine (residentTokens_markResident.1 hr).imp_right fun ⟨hslot, hpos⟩ => ?_
      exact ⟨hgrid, hcopies.1, hshort, hslot.symm, .inr ⟨hcopies, hpos, by rw [goto_pc_self]; rfl⟩⟩
  · rw [if_neg hshort]
    have hstep : Step a kv b s (s.goto b (.copying dst bytes true)) := Step.goto (fun _ => trivial) fun _ => rfl
    refine h.next_same hstep rfl (not_filling hpc (by simp) (by simp)) (fun bucket => ?_) ?_ (fun _ _ => .inl rfl)
      fun _ _ hr => .inl hr
    · rw [goto_pc_self]
      exact not_filling_pc (by simp) (by simp) bucket
    · rw [goto_pc_self]
      exact ⟨hcopies, hdst, ⟨hemitted.output.step hstep, hemitted.slots⟩, hbytes, fun hs => absurd hs hshort⟩

theorem copied (h : LoadInv a kv s₀ s) (hgrid : a.Grid b) {dst : ℕ} (hpc : s.pc b = .copying dst Finset.univ true) :
    LoadInv a kv s₀ (s.goto b (.returned true)) := by
  have hblock := h.block b hgrid
  rw [hpc] at hblock
  obtain ⟨hcopies, -, hemitted, hbytes, hresident⟩ := hblock
  have hstep : Step a kv b s (s.goto b (.returned true)) := Step.goto (fun _ => rfl) fun _ => rfl
  refine h.next_same hstep rfl (not_filling hpc (by simp) (by simp)) (fun bucket => ?_) ?_ (fun _ _ => .inl rfl)
    fun _ _ hr => .inl hr
  · rw [goto_pc_self]
    exact not_filling_pc (by simp) (by simp) bucket
  · rw [goto_pc_self]
    exact ⟨fun _ => ⟨⟨hemitted.output.step hstep, hemitted.slots⟩, fun _ hshort => hresident hshort rfl⟩,
      fun hnot => absurd hcopies.1 hnot, fun _ => ⟨hcopies, fun byte => hbytes byte (Finset.mem_univ byte)⟩⟩

theorem byte (h : LoadInv a kv s₀ s) (hbatch : a.Batch) (hbacked : Backed a kv) (hgrid : a.Grid b) {dst : ℕ}
    {bytes : Finset (Fin D)} {mark : Bool} {byte : Fin D} (hpc : s.pc b = .copying dst bytes mark) :
    LoadInv a kv s₀ ((s.storeByte (a.pageOf dst) byte (a.cold (a.pageOf (a.src b).toNat) byte)).goto b
      (.copying dst (insert byte bytes) mark)) := by
  have hstep := h.step_byte hbatch hbacked byte hgrid hpc
  have hblock := h.block b hgrid
  rw [hpc] at hblock
  obtain ⟨hcopies, rfl, hemitted, hbytes, hresident⟩ := hblock
  -- the byte comes from the cold row of the source, which holds the position chosen
  have hnew : Fetched a kv ((s.storeByte (a.pageOf (a.target b)) byte (a.cold (a.pageOf (a.src b).toNat) byte)).goto b
      (.copying (a.target b) (insert byte bytes) mark)) b byte := by
    change Function.update s.hot (a.pageOf (a.target b)) _ (a.pageOf (a.target b)) byte = _
    rw [Function.update_self, Function.update_self, hbacked b hgrid hcopies]
  refine h.next_same hstep rfl (not_filling hpc (by simp) (by simp)) (fun bucket => ?_) ?_ (fun page byte' => ?_)
    fun _ _ hr => .inl hr
  · rw [goto_pc_self]
    exact not_filling_pc (by simp) (by simp) bucket
  · rw [goto_pc_self]
    refine ⟨hcopies, rfl, ⟨hemitted.output.step hstep, hemitted.slots⟩, fun byte' hbyte' => ?_, hresident⟩
    rcases Finset.mem_insert.1 hbyte' with rfl | hold
    · exact hnew
    · exact hstep.hot b hgrid hcopies byte' (hbytes byte' hold)
  · by_cases hsame : page = a.pageOf (a.target b) ∧ byte' = byte
    · obtain ⟨rfl, rfl⟩ := hsame
      exact .inr ⟨hgrid, hcopies, rfl, hnew⟩
    · left
      change Function.update s.hot (a.pageOf (a.target b)) _ page byte' = _
      by_cases hpage : page = a.pageOf (a.target b)
      · rw [hpage, Function.update_self, Function.update_of_ne fun hb => hsame ⟨hpage, hb⟩]
      · rw [Function.update_of_ne hpage]

/-- **Every step keeps the invariant.** -/
theorem step (h : LoadInv a kv s₀ s) (hbatch : a.Batch) (hbacked : Backed a kv) (hgrid : a.Grid b)
    (hcase : StepCase a s b s') : LoadInv a kv s₀ s' := by
  cases hcase with
  | inactive hpc hrow => exact h.inactive hpc hrow
  | invalid hpc hrow hvalid =>
    refine h.select hrow ?_ ?_ (not_filling hpc (by simp) (by simp)) (.invalid hvalid) fun hc => absurd hc.2.1 hvalid
    all_goals rw [hpc]; exact id
  | short hpc hrow hvalid hshort => exact h.short hpc hrow hvalid hshort
  | span hpc hrow hvalid hlong hspan =>
    refine h.select hrow ?_ ?_ (not_filling hpc (by simp) (by simp)) (.span hvalid hlong hspan) fun hc =>
      absurd hspan hc.2.2
    all_goals rw [hpc]; exact id
  | look hpc hrow hvalid hlong hspan => exact h.look hbatch hpc ⟨⟨hrow, hvalid, hspan⟩, hlong⟩
  -- cannot happen: the table is larger than the keys of a request
  | exhausted n bucket hpc hn =>
    have hblock := h.block b hgrid
    rw [hpc] at hblock
    obtain ⟨hashed, j, -, hpassed, hle⟩ := hblock
    have hlt := h.probes_lt hbatch hgrid hashed hpassed
    rcases hle with hle | ⟨hle, -⟩ <;> omega
  | stale n bucket hpc hn hepoch => exact h.stale hgrid hpc hepoch
  | found n bucket hpc hepoch hkey => exact h.found hgrid hpc hepoch hkey
  | pass n bucket hpc hn hepoch hkey => exact h.pass hbatch hgrid hpc hepoch hkey
  | won n bucket old hpc hold => exact h.won hbatch hgrid hpc hold
  | lost n bucket old hpc hold => exact h.lost hgrid hpc hold
  | filled bucket hpc => exact h.filled hgrid hpc
  | published bucket hpc => exact h.published hbatch hgrid hpc
  | ready bucket hpc hready => exact h.ready hbatch hgrid hpc hready
  | taken bucket hpc => exact h.taken hbatch hgrid hpc
  | emitted hotSlot copy hpc => exact h.emitted hgrid hpc
  | marked dst bytes hpc => exact h.marked hgrid hpc
  | copied dst hpc => exact h.copied hgrid hpc
  | byte dst bytes mark byte hpc hbyte => exact h.byte hbatch hbacked hgrid hpc

end Cases

end LoadInv

end NanoEngine.HiSparse
