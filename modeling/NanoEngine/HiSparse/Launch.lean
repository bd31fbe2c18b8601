import Mathlib.Algebra.Order.BigOperators.Group.Finset
import NanoEngine.HiSparse.Steps

/-!
# NanoEngine.HiSparse.Launch — every order of a launch brings the selected tokens to the hot tier

* `remaining`: a bound on the steps that are left; `exists_step`: no launch is stuck.
* `LaunchInv`: a block that has published its entry finds it in the table, so a token has one entry.
* `Loaded`: what a launch leaves in the results, in the hot cache and in the flags.
* `load_mla_slot`: every order of the steps leads there.
-/

namespace NanoEngine.HiSparse

open Transition Probing

variable {B : Type*} {D : ℕ} {a : LoadArgs B D} {kv : ℕ → ℕ → Fin D → B}
  {s₀ s s' : LoadState B D} {b w : ℕ × ℕ}

/-- No word of a request's table has the epoch of the launch yet. -/
def Fresh (a : LoadArgs B D) (s : LoadState B D) : Prop :=
  ∀ row, a.Long row → ∀ bucket, wordEpoch (s.unionHashEntries (a.slot row, bucket)) ≠ a.epoch row

theorem LoadInv.init (hpc : ∀ b, s₀.pc b = .start) (hfresh : Fresh a s₀) : LoadInv a kv s₀ s₀ where
  claims row hrow := by
    have hnone : claimed a s₀ row = fun _ => none := funext fun bucket => claimed_eq_none (hfresh row hrow bucket)
    rw [hnone]
    exact Claims.empty
  held row hrow bucket k hk := by
    rw [claimed_eq_none (hfresh row hrow bucket)] at hk
    cases hk
  one b w bucket _ _ hb := absurd hb (not_filling_pc (by simp [hpc b]) (by simp [hpc b]) bucket)
  block b _ := by
    rw [hpc b]
    trivial
  hot _ _ := .inl rfl
  resident _ _ h := .inl h
  kept _ _ h := h
  table _ _ := .inl rfl

theorem loadInv_invariant (hbatch : a.Batch) (hbacked : Backed a kv) (hpc : ∀ b, s₀.pc b = .start)
    (hfresh : Fresh a s₀) :
    Invariant (loadSystem a s₀) always (LoadInv a kv s₀) where
  initial s h := by
    change s = s₀ at h
    subst h
    exact LoadInv.init hpc hfresh
  next _ _ _ h _ hstep := h.step hbatch hbacked (step_cases hstep).1 (step_cases hstep).2

/-! ### How far a launch is from its end -/

/-- How far a block is from its return. -/
def LoadPc.remaining (capacity : ℕ) : LoadPc D → ℕ
  | .start => 2 * capacity + D + 10
  | .probe n _ => 2 * (capacity - n) + D + 8
  | .cas n _ _ => 2 * (capacity - (n + 1)) + D + 9
  | .fill _ => D + 7
  | .publish _ => D + 6
  | .wait _ => D + 6
  | .take _ => D + 5
  | .selected _ _ => D + 4
  | .copying _ bytes marked => D - bytes.card + (if marked = true then 0 else 1) + 1
  | .returned _ => 0

def remaining (a : LoadArgs B D) (s : LoadState B D) : ℕ :=
  ∑ b ∈ Finset.range a.numRows ×ˢ Finset.range a.topk, (s.pc b).remaining a.unionHashCapacity

theorem mem_grid : b ∈ Finset.range a.numRows ×ˢ Finset.range a.topk ↔ a.Grid b := by
  rw [Finset.mem_product, Finset.mem_range, Finset.mem_range]
  rfl

/-- A step moves one block, and nearer to its return. -/
theorem StepCase.pc (h : StepCase a s b s') : (∀ w ≠ b, s'.pc w = s.pc w) ∧
    (s'.pc b).remaining a.unionHashCapacity < (s.pc b).remaining a.unionHashCapacity := by
  cases h with
  | inactive hpc _ => exact ⟨fun w hne => goto_pc_other hne, by simp [hpc, LoadPc.remaining]⟩
  | invalid hpc _ _ => exact ⟨fun w hne => goto_pc_other hne, by simp [hpc, LoadPc.remaining]; omega⟩
  | short hpc _ _ _ => exact ⟨fun w hne => goto_pc_other hne, by simp [hpc, LoadPc.remaining]; omega⟩
  | span hpc _ _ _ _ => exact ⟨fun w hne => goto_pc_other hne, by simp [hpc, LoadPc.remaining]; omega⟩
  | look hpc _ _ _ _ => exact ⟨fun w hne => goto_pc_other hne, by simp [hpc, LoadPc.remaining]⟩
  | exhausted n bucket hpc _ => exact ⟨fun w hne => goto_pc_other hne, by simp [hpc, LoadPc.remaining]; omega⟩
  | stale n bucket hpc hn _ =>
    exact ⟨fun w hne => goto_pc_other hne, by simp only [hpc, goto_pc_self, LoadPc.remaining]; omega⟩
  | found n bucket hpc _ _ => exact ⟨fun w hne => goto_pc_other hne, by simp [hpc, LoadPc.remaining]; omega⟩
  | pass n bucket hpc hn _ _ =>
    exact ⟨fun w hne => goto_pc_other hne, by simp only [hpc, goto_pc_self, LoadPc.remaining]; omega⟩
  | won n bucket old hpc _ => exact ⟨fun w hne => goto_pc_other hne, by simp [hpc, LoadPc.remaining]; omega⟩
  | lost n bucket old hpc _ => exact ⟨fun w hne => goto_pc_other hne, by simp [hpc, LoadPc.remaining]⟩
  | filled bucket hpc => exact ⟨fun w hne => goto_pc_other hne, by simp [hpc, LoadPc.remaining]⟩
  | published bucket hpc => exact ⟨fun w hne => goto_pc_other hne, by simp [hpc, LoadPc.remaining]⟩
  | ready bucket hpc _ => exact ⟨fun w hne => goto_pc_other hne, by simp [hpc, LoadPc.remaining]⟩
  | taken bucket hpc => exact ⟨fun w hne => goto_pc_other hne, by simp [hpc, LoadPc.remaining]⟩
  | emitted hotSlot copy hpc =>
    refine ⟨fun w hne => (goto_pc_other hne).trans (congrFun (LoadInv.emit_spec hotSlot).1 w), ?_⟩
    rw [goto_pc_self, hpc]
    split <;> simp [LoadPc.remaining]
  | marked dst bytes hpc =>
    refine ⟨fun w hne => (goto_pc_other hne).trans ?_, by simp [hpc, LoadPc.remaining]⟩
    split <;> rfl
  | copied dst hpc => exact ⟨fun w hne => goto_pc_other hne, by simp [hpc, LoadPc.remaining]⟩
  | byte dst bytes marked byte hpc hbyte =>
    refine ⟨fun w hne => goto_pc_other hne, ?_⟩
    have hcard := Finset.card_le_univ (insert byte bytes)
    rw [Finset.card_insert_of_notMem hbyte, Fintype.card_fin] at hcard
    simp only [hpc, goto_pc_self, LoadPc.remaining, Finset.card_insert_of_notMem hbyte]
    omega

/-! ### A published entry stays -/

/-- The invariant, and that a block that has published its entry finds it in the table. -/
structure LaunchInv (a : LoadArgs B D) (kv : ℕ → ℕ → Fin D → B) (s₀ s : LoadState B D) : Prop
    extends LoadInv a kv s₀ s where
  published : ∀ b, a.Grid b → a.Hashed b → Past (s.pc b) → ∃ bucket,
    s.unionHashEntries (a.slot b.1, bucket) = pendingWord (a.key b) (a.epoch b.1) ||| 1 ∧
      s.unionHashValues (a.slot b.1, bucket) = a.entry b

/-- A published entry stays, whatever block takes a step. -/
theorem LoadInv.ready_stays (h : LoadInv a kv s₀ s) (hbatch : a.Batch) (hgrid : a.Grid b) (hcase : StepCase a s b s')
    (hashed : a.Hashed w) {bucket : ℕ}
    (hword : s.unionHashEntries (a.slot w.1, bucket) = pendingWord (a.key w) (a.epoch w.1) ||| 1) :
    s'.unionHashEntries (a.slot w.1, bucket) = s.unionHashEntries (a.slot w.1, bucket) ∧
      s'.unionHashValues (a.slot w.1, bucket) = s.unionHashValues (a.slot w.1, bucket) := by
  cases hcase with
  | won n bucket' old hpc hold => exact (h.step_won hbatch hgrid hpc hold).ready w hashed bucket hword
  | filled bucket' hpc => exact (h.step_filled hgrid hpc).ready w hashed bucket hword
  | published bucket' hpc => exact (h.step_published hbatch hgrid hpc).ready w hashed bucket hword
  | emitted hotSlot copy hpc =>
    obtain ⟨-, hentries, hvalues, -⟩ := LoadInv.emit_spec (a := a) (s := s) (b := b) hotSlot
    exact ⟨congrFun hentries _, congrFun hvalues _⟩
  | marked dst bytes hpc => split <;> exact ⟨rfl, rfl⟩
  | _ => exact ⟨rfl, rfl⟩

/-- A block gets past its entry by publishing it. -/
theorem StepCase.past (hcase : StepCase a s b s') (hashed : a.Hashed b) (hpast : Past (s'.pc b)) :
    Past (s.pc b) ∨ ∃ bucket, s.pc b = .publish bucket ∧ s' =
      (s.storeEntry (a.slot b.1) bucket (s.unionHashEntries (a.slot b.1, bucket) ||| 1)).goto b
        (.selected ((a.hotBase b.1 : ℤ) + (a.entry b : ℤ)) true) := by
  cases hcase with
  | short hpc hrow hvalid hshort => exact absurd hshort hashed.2
  | published bucket hpc => exact .inr ⟨bucket, hpc, rfl⟩
  | emitted hotSlot copy hpc =>
    rw [goto_pc_self] at hpast
    rw [hpc]
    split at hpast
    case isTrue hcopy => exact .inl hcopy.2
    case isFalse => cases hpast
  | marked dst bytes hpc =>
    rw [hpc]
    exact .inl trivial
  | copied dst hpc =>
    rw [hpc]
    exact .inl trivial
  | byte dst bytes mark byte hpc hbyte =>
    rw [hpc]
    exact .inl trivial
  | _ =>
    rw [goto_pc_self] at hpast
    cases hpast

theorem LaunchInv.init (hpc : ∀ b, s₀.pc b = .start) (hfresh : Fresh a s₀) : LaunchInv a kv s₀ s₀ where
  toLoadInv := LoadInv.init hpc hfresh
  published b _ _ hpast := by
    rw [hpc b] at hpast
    cases hpast

/-- **Every step keeps what is published.** -/
theorem LaunchInv.step (h : LaunchInv a kv s₀ s) (hbatch : a.Batch) (hbacked : Backed a kv) (hgrid : a.Grid b)
    (hcase : StepCase a s b s') : LaunchInv a kv s₀ s' where
  toLoadInv := h.toLoadInv.step hbatch hbacked hgrid hcase
  published w hw hashed hpast := by
    have hstays : Past (s.pc w) → ∃ bucket,
        s'.unionHashEntries (a.slot w.1, bucket) = pendingWord (a.key w) (a.epoch w.1) ||| 1 ∧
          s'.unionHashValues (a.slot w.1, bucket) = a.entry w := by
      intro hold
      obtain ⟨bucket, hword, hvalue⟩ := h.published w hw hashed hold
      obtain ⟨hentries, hvalues⟩ := h.ready_stays hbatch hgrid hcase hashed hword
      exact ⟨bucket, hentries.trans hword, hvalues.trans hvalue⟩
    -- another block goes past its entry in a step of its own
    by_cases hwb : w = b
    · subst hwb
      obtain hold | ⟨bucket, hpc, rfl⟩ := hcase.past hashed hpast
      · exact hstays hold
      · have hblock := h.block w hw
        rw [hpc] at hblock
        refine ⟨bucket, ?_, hblock.2.2⟩
        rw [← hblock.2.1]
        exact storeEntry_self _ _ _
    · rw [hcase.pc.1 w hwb] at hpast
      exact hstays hpast

theorem launchInv_invariant (hbatch : a.Batch) (hbacked : Backed a kv) (hpc : ∀ b, s₀.pc b = .start)
    (hfresh : Fresh a s₀) :
    Invariant (loadSystem a s₀) always (LaunchInv a kv s₀) where
  initial s h := by
    change s = s₀ at h
    subst h
    exact LaunchInv.init hpc hfresh
  next _ _ _ h _ hstep := h.step hbatch hbacked (step_cases hstep).1 (step_cases hstep).2

/-- Two blocks that have published an entry for one token of a request have published one entry. -/
theorem LaunchInv.entry_eq (h : LaunchInv a kv s₀ s) (hbatch : a.Batch) {v v' : ℕ × ℕ}
    (hv : a.Twin b v) (hv' : a.Twin b v')
    (hpast : Past (s.pc v)) (hpast' : Past (s.pc v')) (hashed : a.Hashed b) : a.entry v = a.entry v' := by
  obtain ⟨bucket, hword, hvalue⟩ := h.published v hv.grid hv.hashed hpast
  obtain ⟨bucket', hword', hvalue'⟩ := h.published v' hv'.grid hv'.hashed hpast'
  have hclaimed : ∀ {v bucket}, a.Twin b v →
      s.unionHashEntries (a.slot v.1, bucket) = pendingWord (a.key v) (a.epoch v.1) ||| 1 →
      claimed a s b.1 bucket = some (a.key b) := by
    intro v bucket hv hword
    rw [hv.slot, hv.key, hbatch.epoch_eq hv.hashed.1.1 hashed.1.1 hv.slot] at hword
    exact claimed_of_ready hword
  have hbucket := (h.claims b.1 hashed.long).unique (hclaimed hv hword) (hclaimed hv' hword')
  rw [← hvalue, ← hvalue', hv.slot, hv'.slot, hbucket]

/-! ### Every launch returns -/

theorem remaining_step {op : LoadOp D} (h : a.step s op = some s') : remaining a s' < remaining a s := by
  obtain ⟨hgrid, hcase⟩ := step_cases h
  obtain ⟨hother, hlt⟩ := hcase.pc
  refine Finset.sum_lt_sum (fun w _ => ?_) ⟨op.block, mem_grid.2 hgrid, hlt⟩
  by_cases hw : w = op.block
  · rw [hw]
    exact Nat.le_of_lt hlt
  · rw [hother w hw]

/-- A block that does not wait can take a step. -/
theorem thread0_step (hgrid : a.Grid b) (h : (a.thread0 s b).isSome) : ∃ op s', a.step s op = some s' := by
  obtain ⟨s', hs'⟩ := Option.isSome_iff_exists.1 h
  exact ⟨.thread0 b, s', (if_pos hgrid).trans hs'⟩

/-- **No launch is stuck**: a block that waits for a ready bit waits for one that can take a step. -/
theorem LoadInv.exists_step (h : LoadInv a kv s₀ s) (hfin : ¬ Finished a s) : ∃ op s', a.step s op = some s' := by
  simp only [Finished, not_forall] at hfin
  obtain ⟨row, hrow, i, hi, hpc⟩ := hfin
  have hgrid : a.Grid (row, i) := ⟨hrow, hi⟩
  cases hs : s.pc (row, i) with
  | start =>
    refine thread0_step hgrid ?_
    unfold LoadArgs.thread0
    rw [hs]
    dsimp only
    split_ifs <;> rfl
  | probe n bucket =>
    refine thread0_step hgrid ?_
    unfold LoadArgs.thread0
    rw [hs]
    dsimp only
    split_ifs <;> rfl
  | cas n bucket old =>
    refine thread0_step hgrid ?_
    unfold LoadArgs.thread0
    rw [hs]
    dsimp only
    split_ifs <;> rfl
  | fill bucket => exact thread0_step hgrid (by unfold LoadArgs.thread0; rw [hs]; rfl)
  | publish bucket => exact thread0_step hgrid (by unfold LoadArgs.thread0; rw [hs]; rfl)
  | wait bucket =>
    have hblock := h.block _ hgrid
    rw [hs] at hblock
    obtain ⟨hashed, hclaimed⟩ := hblock
    obtain ⟨w, hw, hwh, hslot, hkey, holder⟩ := h.held row hashed.long bucket _ hclaimed
    -- the bucket has a holder, which is still writing it or has set the ready bit
    rcases holder with ⟨-, hfill | hpublish⟩ | ⟨hword, -⟩
    · exact thread0_step hw (by unfold LoadArgs.thread0; rw [hfill]; rfl)
    · exact thread0_step hw (by unfold LoadArgs.thread0; rw [hpublish]; rfl)
    · refine thread0_step hgrid ?_
      have hready : wordReady (s.unionHashEntries (a.slot row, bucket)) = true := by
        rw [← hslot, hword]
        exact wordReady_or_one _
      unfold LoadArgs.thread0
      rw [hs]
      dsimp only
      rw [if_pos hready]
      rfl
  | take bucket => exact thread0_step hgrid (by unfold LoadArgs.thread0; rw [hs]; rfl)
  | selected d copy => exact thread0_step hgrid (by unfold LoadArgs.thread0; rw [hs]; rfl)
  | copying dst bytes marked =>
    by_cases hbytes : bytes = Finset.univ
    · subst hbytes
      refine thread0_step hgrid ?_
      unfold LoadArgs.thread0
      rw [hs]
      cases marked <;> simp
    · obtain ⟨byte, hbyte⟩ : ∃ byte, byte ∉ bytes := by
        by_contra hall
        exact hbytes (Finset.eq_univ_iff_forall.2 fun byte => not_not.1 fun hn => hall ⟨byte, hn⟩)
      refine ⟨.copyByte (row, i) byte, ?_⟩
      unfold LoadArgs.step LoadArgs.copyByte
      dsimp only
      rw [if_pos hgrid, hs]
      dsimp only
      rw [if_neg hbyte]
      exact ⟨_, rfl⟩
  | returned copied => exact absurd ⟨copied, hs⟩ hpc

/-! ### What a launch leaves -/

/-- The resident tokens of the short requests are in the hot cache. -/
def Coherent (a : LoadArgs B D) (kv : ℕ → ℕ → Fin D → B) (s : LoadState B D) : Prop :=
  ∀ row < a.numRows, a.Active row → a.ShortSequence row → ∀ pos : ℕ, (pos : ℤ) < a.outputStart row →
    s.residentTokens (a.slot row, pos) = true → s.hot (a.pageOf (a.hotBase row + pos)) = kv (a.slot row) pos

structure Loaded (a : LoadArgs B D) (kv : ℕ → ℕ → Fin D → B) (s₀ s : LoadState B D) : Prop where
  inactive : ∀ b, a.Grid b → ¬ a.Active b.1 → s.output b = -1
  invalid : ∀ b, a.Grid b → a.Active b.1 → ¬ a.Valid b → s.output b = -1
  slots : ∀ row < a.numRows, s.hotOutputSlots row = if a.Active row then a.hotOutputSlot row else -1
  /-- A token that a row of the request writes is read where the row writes it. -/
  written : ∀ b, a.Grid b → a.Active b.1 → a.Valid b → a.OutputSpan b →
    ∀ row, a.reqOffset row = a.reqOffset b.1 →
    a.slot row = a.slot b.1 → a.outputPos row = a.logical b → s.output b = a.hotOutputSlot row
  /-- Every other token is in the hot cache, where no row writes. -/
  fetched : ∀ b, a.Grid b → a.Copies b →
    ∃ off < a.hotCapacity, s.output b = ((a.hotBase b.1 + off : ℕ) : ℤ) ∧
    s.hot (a.pageOf (a.hotBase b.1 + off)) = kv (a.slot b.1) (a.logical b).toNat ∧
    (a.ShortSequence b.1 → (off : ℤ) = a.logical b)
  /-- Rows of one request that select the same token read it at one place. -/
  shared : ∀ b w, a.Grid b → a.Grid w → a.Copies b → a.Copies w → a.slot b.1 = a.slot w.1 →
    a.logical b = a.logical w →
    s.output b = s.output w
  coherent : Coherent a kv s
  hot : ∀ page, (∀ row < a.numRows, a.Active row →
    ∀ off < a.hotCapacity, page ≠ a.pageOf (a.hotBase row + off)) →
    s.hot page = s₀.hot page
  kept : ∀ slot pos, s₀.residentTokens (slot, pos) = true → s.residentTokens (slot, pos) = true
  resident : ∀ slot pos, s.residentTokens (slot, pos) = true → s₀.residentTokens (slot, pos) = true ∨
    ∃ row < a.numRows, a.Active row ∧ a.ShortSequence row ∧ a.slot row = slot ∧ (pos : ℤ) < a.seqLens row
  table : ∀ slot bucket, s.unionHashEntries (slot, bucket) = s₀.unionHashEntries (slot, bucket) ∨
    ∃ row < a.numRows, a.Long row ∧ a.slot row = slot ∧
      wordEpoch (s.unionHashEntries (slot, bucket)) = a.epoch row

namespace LoadInv

/-- A block that has copied has its row in the hot cache. -/
theorem fetched_of_past (h : LoadInv a kv s₀ s) (hf : Finished a s) (hgrid : a.Grid b) (hpast : Past (s.pc b)) :
    s.hot (a.pageOf (a.target b)) = kv (a.slot b.1) (a.logical b).toNat := by
  obtain ⟨copied, hpc⟩ := hf b.1 hgrid.1 b.2 hgrid.2
  have hblock := h.block b hgrid
  change s.pc b = _ at hpc
  rw [hpc] at hblock hpast
  exact funext fun byte => (hblock.2.2 hpast).2 byte

theorem emitted_of_finished (h : LoadInv a kv s₀ s) (hf : Finished a s) (hgrid : a.Grid b) (hrow : a.Active b.1) :
    Emitted a s b ∧ (a.Copies b → a.ShortSequence b.1 → Resident a s b) := by
  obtain ⟨copied, hpc⟩ := hf b.1 hgrid.1 b.2 hgrid.2
  have hblock := h.block b hgrid
  change s.pc b = _ at hpc
  rw [hpc] at hblock
  exact hblock.1 hrow

theorem tokenStep_of_outputPos {row : ℕ} (hlen : a.seqLens row = a.seqLens b.1)
    (hpos : a.outputPos row = a.logical b) :
    (a.tokenStep row : ℤ) = a.logical b - a.outputStart b.1 := by
  unfold LoadArgs.outputPos LoadArgs.outputStart at *
  rw [hlen] at hpos
  omega

/-- The residency flags tell the truth at the end: the blocks that set them have copied. -/
theorem coherent (h : LoadInv a kv s₀ s) (hbatch : a.Batch) (hf : Finished a s) (hcoherent : Coherent a kv s₀) :
    Coherent a kv s := by
  intro row hrow hactive hshort pos hpos hresident
  have hcap := hshort.2
  have hstart : a.outputStart row ≤ a.seqLens row := by
    unfold LoadArgs.outputStart
    omega
  have hlt : pos < a.hotCapacity := by omega
  have hstride := hbatch.stride
  -- a write to the row is the one of the token
  have hwrites : ∀ b, a.Grid b → a.Copies b → a.hotBase row + pos = a.target b →
      a.slot b.1 = a.slot row ∧ (a.logical b).toNat = pos := by
    intro b hgrid hcopies heq
    obtain ⟨off, hoff, htarget⟩ := hbatch.target_lt hgrid.2 hcopies
    obtain ⟨hslot, hpos'⟩ := LoadArgs.slot_of_hot (by omega) (by omega) (heq.trans htarget)
    have hreq := (hbatch.request _ _ hactive hcopies.1).1 hslot
    have hshort' := (hbatch.short_iff (b := (row, 0)) (w := b) hreq).1 hshort
    have hoff' : off = (a.logical b).toNat := by
      unfold LoadArgs.target at htarget
      rw [if_pos hshort'] at htarget
      exact (Nat.add_left_cancel htarget).symm
    exact ⟨hslot.symm, hoff' ▸ hpos'.symm⟩
  have hfrom : s₀.residentTokens (a.slot row, pos) = true →
      s.hot (a.pageOf (a.hotBase row + pos)) = kv (a.slot row) pos := by
    intro hold
    funext byte
    rcases h.hot (a.pageOf (a.hotBase row + pos)) byte with hsame | ⟨b, hgrid, hcopies, hpage, hf'⟩
    · rw [hsame]
      exact congrFun (hcoherent row hrow hactive hshort pos hpos hold) byte
    · obtain ⟨hslot, hlogical⟩ := hwrites b hgrid hcopies (LoadArgs.pageOf_inj hpage)
      rw [hpage]
      unfold Fetched at hf'
      rw [hf', hslot, hlogical]
  rcases h.resident (a.slot row) pos hresident with hold | ⟨b, hgrid, hb, hshort', hslot, hcase⟩
  · exact hfrom hold
  · have hreq := (hbatch.request _ _ hb hactive).1 hslot
    have hlen := hbatch.length _ _ hreq
    rcases hcase with hout | ⟨hcopies, rfl, hmarked⟩
    · -- a position that the batch writes is not before its first one
      exfalso
      unfold LoadArgs.outputPos LoadArgs.outputStart at *
      rw [hlen] at hout
      omega
    · have hpast : Past (s.pc b) := by
        obtain ⟨copied, hpc⟩ := hf b.1 hgrid.1 b.2 hgrid.2
        change s.pc b = _ at hpc
        rw [hpc] at hmarked ⊢
        exact hmarked
      have htarget : a.target b = a.hotBase row + (a.logical b).toNat := by
        unfold LoadArgs.target LoadArgs.hotBase
        rw [if_pos hshort', hslot]
      rw [← htarget, h.fetched_of_past hf hgrid hpast, hslot]

end LoadInv

/-- Of two selections of one token both read where one block has copied it, or at the place of the token. -/
theorem LaunchInv.shared (h : LaunchInv a kv s₀ s) (hbatch : a.Batch) (hf : Finished a s)
    (hb : a.Grid b) (hw : a.Grid w)
    (hcopies : a.Copies b) (hcopies' : a.Copies w) (hslot : a.slot b.1 = a.slot w.1)
    (hlogical : a.logical b = a.logical w) :
    s.output b = s.output w := by
  have hreq := (hbatch.request _ _ hcopies.1 hcopies'.1).1 hslot
  have hshort := hbatch.short_iff hreq
  have hbase : a.hotBase b.1 = a.hotBase w.1 := congrArg (· * a.slotStrideTokens) hslot
  have hkey : a.key w = a.key b := congrArg uint32 hlogical.symm
  have hchosen := (h.emitted_of_finished hf hb hcopies.1).1.output
  have hchosen' := (h.emitted_of_finished hf hw hcopies'.1).1.output
  generalize s.output b = d at hchosen
  generalize s.output w = d' at hchosen'
  cases hchosen with
  | invalid hvalid => exact absurd hcopies.2.1 hvalid
  | span _ _ hspan => exact absurd hspan hcopies.2.2
  | short _ hs =>
    cases hchosen' with
    | invalid hvalid => exact absurd hcopies'.2.1 hvalid
    | span _ _ hspan => exact absurd hspan hcopies'.2.2
    | short => rw [hbase, hlogical]
    | union _ hashed => exact absurd (hshort.1 hs) hashed.2
  | union v hashed twin hpast =>
    cases hchosen' with
    | invalid hvalid => exact absurd hcopies'.2.1 hvalid
    | span _ _ hspan => exact absurd hspan hcopies'.2.2
    | short _ hs => exact absurd (hshort.2 hs) hashed.2
    | union v' hashed' twin' hpast' =>
      have htwin : a.Twin b v' := ⟨twin'.grid, twin'.hashed, twin'.slot.trans hslot.symm, twin'.key.trans hkey⟩
      have hbases : a.hotBase v.1 = a.hotBase v'.1 :=
        congrArg (· * a.slotStrideTokens) (twin.slot.trans htwin.slot.symm)
      unfold LoadArgs.target
      rw [if_neg twin.hashed.2, if_neg twin'.hashed.2, hbases, h.entry_eq hbatch twin htwin hpast hpast' hashed]

/-- **What a launch leaves.** -/
theorem LaunchInv.loaded (h : LaunchInv a kv s₀ s) (hbatch : a.Batch) (hf : Finished a s)
    (hcoherent : Coherent a kv s₀) :
    Loaded a kv s₀ s where
  inactive b hgrid hrow := by
    obtain ⟨copied, hpc⟩ := hf b.1 hgrid.1 b.2 hgrid.2
    have hblock := h.block b hgrid
    change s.pc b = _ at hpc
    rw [hpc] at hblock
    exact (hblock.2.1 hrow).1
  invalid b hgrid hrow hvalid := by
    have hchosen := (h.emitted_of_finished hf hgrid hrow).1.output
    generalize s.output b = d at hchosen
    cases hchosen with
    | invalid => rfl
    | short hvalid' => exact absurd hvalid' hvalid
    | span hvalid' => exact absurd hvalid' hvalid
    | union w hashed => exact absurd hashed.1.2.1 hvalid
  slots row hrow := by
    have hgrid : a.Grid (row, 0) := ⟨hrow, hbatch.topk_pos⟩
    split
    case isTrue hactive => exact (h.emitted_of_finished hf hgrid hactive).1.slots rfl
    case isFalse hactive =>
      obtain ⟨copied, hpc⟩ := hf row hrow 0 hbatch.topk_pos
      have hblock := h.block (row, 0) hgrid
      rw [hpc] at hblock
      exact (hblock.2.1 hactive).2 rfl
  -- a logical position among the outputs is in the slot of the row with that output
  written b hgrid hrow hvalid hspan row hreq hslot hpos := by
    have hlen := hbatch.length _ _ hreq
    have hstep := LoadInv.tokenStep_of_outputPos hlen hpos
    have hnonneg := hvalid.2.1
    have hbase : a.hotBase row = a.hotBase b.1 := congrArg (· * a.slotStrideTokens) hslot
    have hshort : a.ShortSequence row ↔ a.ShortSequence b.1 := hbatch.short_iff (b := (row, 0)) hreq
    have hchosen := (h.emitted_of_finished hf hgrid hrow).1.output
    unfold LoadArgs.hotOutputSlot
    rw [if_neg (by omega), hbase]
    generalize s.output b = d at hchosen
    cases hchosen with
    | invalid hvalid' => exact absurd hvalid hvalid'
    | short _ hs => rw [if_pos (hshort.2 hs), hpos]
    | span _ hl _ =>
      rw [if_neg fun hs => hl (hshort.1 hs), hstep]
      omega
    | union w hashed => exact absurd hspan hashed.1.2.2
  fetched b hgrid hcopies := by
    obtain ⟨hemitted, hresident⟩ := h.emitted_of_finished hf hgrid hcopies.1
    have hchosen := hemitted.output
    have hnonneg := hcopies.2.1.2.1
    generalize s.output b = d at hchosen
    cases hchosen with
    | invalid hvalid => exact absurd hcopies.2.1 hvalid
    | short hvalid hshort =>
      have hlogical := hvalid.2.2 hshort
      have hcap := hshort.2
      refine ⟨(a.logical b).toNat, by omega, by push_cast; omega, ?_, fun _ => by omega⟩
      refine h.coherent hbatch hf hcoherent b.1 hgrid.1 hcopies.1 hshort _ ?_ (hresident hcopies hshort)
      have hspan := hcopies.2.2
      unfold LoadArgs.OutputSpan at hspan
      omega
    | span hvalid hlong hspan => exact absurd hspan hcopies.2.2
    -- the entry of the bucket was claimed by a twin, which has copied the token
    | union w hashed htwin hpast =>
      have hkeys : (a.logical w).toNat = (a.logical b).toNat := by
        rw [← hbatch.key_eq htwin.grid htwin.hashed.1.2.1, htwin.key, hbatch.key_eq hgrid hcopies.2.1]
      have htarget : a.target w = a.hotBase b.1 + a.entry w := by
        unfold LoadArgs.target LoadArgs.hotBase
        rw [if_neg htwin.hashed.2, htwin.slot]
      refine ⟨a.entry w, hbatch.entry_lt htwin.grid.2, by rw [htarget], ?_, fun hshort => absurd hshort hashed.2⟩
      rw [← htarget, h.fetched_of_past hf htwin.grid hpast, htwin.slot, hkeys]
  shared b w hb hw hcopies hcopies' hslot hlogical := h.shared hbatch hf hb hw hcopies hcopies' hslot hlogical
  coherent := h.coherent hbatch hf hcoherent
  hot page hpage := by
    funext byte
    refine (h.hot page byte).resolve_right ?_
    rintro ⟨b, hgrid, hcopies, rfl, -⟩
    obtain ⟨off, hoff, htarget⟩ := hbatch.target_lt hgrid.2 hcopies
    exact hpage b.1 hgrid.1 hcopies.1 off hoff (congrArg a.pageOf htarget)
  kept := h.kept
  resident slot pos hr := by
    refine (h.resident slot pos hr).imp_right ?_
    rintro ⟨b, hgrid, hrow, hshort, hslot, hpos⟩
    refine ⟨b.1, hgrid.1, hrow, hshort, hslot, ?_⟩
    rcases hpos with hpos | ⟨hcopies, rfl, -⟩
    · have hstep := a.tokenStep_lt b.1
      unfold LoadArgs.outputPos LoadArgs.outputStart at hpos
      omega
    · have hlogical := hcopies.2.1.2.2 hshort
      have hnonneg := hcopies.2.1.2.1
      omega
  table slot bucket := by
    refine (h.table slot bucket).imp_right ?_
    rintro ⟨b, hgrid, hashed, hslot, hepoch⟩
    exact ⟨b.1, hgrid.1, hashed.long, hslot, hepoch⟩

theorem remaining_start (hpc : ∀ b, s₀.pc b = .start) :
    remaining a s₀ = a.numRows * a.topk * (2 * a.unionHashCapacity + D + 10) := by
  unfold remaining
  simp [hpc, LoadPc.remaining]

/-- From every state of a launch its end can be reached. -/
theorem LoadInv.exists_finished (h : LoadInv a kv s₀ s) (hbatch : a.Batch) (hbacked : Backed a kv)
    (hpc : ∀ b, s₀.pc b = .start) (hfresh : Fresh a s₀) :
    ∃ ops s', run (loadSystem a s₀) always ops s = some s' ∧ Finished a s' := by
  refine exists_run (T := loadSystem a s₀) (G := always) (fun _ _ _ hstep => remaining_step hstep)
    (loadInv_invariant hbatch hbacked hpc hfresh).next (fun s hs hfin => ?_) h
  obtain ⟨op, s', hstep⟩ := hs.exists_step hfin
  exact ⟨op, s', rfl, hstep⟩

/-- **Whatever the order of the steps, a launch is bounded, can always be run to its end, and brings the selected tokens
to the hot tier.** -/
theorem load_mla_slot (hbatch : a.Batch) (hbacked : Backed a kv)
    (hpc : ∀ b, s₀.pc b = .start) (hfresh : Fresh a s₀)
    (hcoherent : Coherent a kv s₀) {ops : List (LoadOp D)} (hrun : run (loadSystem a s₀) always ops s₀ = some s) :
    ops.length ≤ a.numRows * a.topk * (2 * a.unionHashCapacity + D + 10) ∧
      (∃ ops' s', run (loadSystem a s₀) always (ops ++ ops') s₀ = some s' ∧ Finished a s') ∧
      (Finished a s → Loaded a kv s₀ s) := by
  have hinvariant := launchInv_invariant hbatch hbacked hpc hfresh
  have h := hinvariant.holds ((Reachable.initial (T := loadSystem a s₀) rfl).of_run hrun)
  refine ⟨?_, ?_, fun hf => h.loaded hbatch hf hcoherent⟩
  · have hlength := run_length (fun _ _ _ hstep => remaining_step hstep) hrun
    rw [remaining_start hpc] at hlength
    exact Nat.le_trans (Nat.le_add_right _ _) hlength
  · obtain ⟨ops', s', hrun', hf⟩ := h.exists_finished hbatch hbacked hpc hfresh
    refine ⟨ops', s', ?_, hf⟩
    rw [run_append, hrun]
    exact hrun'

/-- One request of five tokens with two rows; both select the token at position 1. -/
def twoRows : LoadArgs ℕ 1 where
  logicalIndices _ _ := 1
  indices _ _ := 1
  requestSlots _ := 0
  seqLens _ := 5
  cold page _ := 10 * page.1 + page.2
  numRealReqs := 1
  numRows := 2
  topk := 1
  maxNumSeqs := 1
  hotCapacity := 2
  slotStrideTokens := 4
  unionHashCapacity := 4
  numTokensPerSeq := 2
  layerId := 0
  phaseId := 0
  blockSize := 2

def twoRowsState : LoadState ℕ 1 where
  pc _ := .start
  unionHashEntries _ := 0
  unionHashValues _ := 0
  residentTokens _ := false
  hot _ _ := 0
  output _ := 0
  hotOutputSlots _ := 0

/-- Both blocks read the free bucket before either of them claims it. -/
def twoRowsSchedule : List (LoadOp 1) :=
  [.thread0 (0, 0), .thread0 (1, 0), .thread0 (0, 0), .thread0 (1, 0), .thread0 (0, 0),
    .thread0 (1, 0), .thread0 (1, 0),
    .thread0 (0, 0), .thread0 (0, 0), .thread0 (1, 0), .thread0 (1, 0), .thread0 (0, 0), .copyByte (0, 0) (Fin.last 0),
    .thread0 (0, 0), .thread0 (0, 0), .thread0 (1, 0)]

theorem load_mla_slot_twoRows :
    ∃ s, run (loadSystem twoRows twoRowsState) always twoRowsSchedule twoRowsState = some s ∧
    Loaded twoRows (fun _ _ _ => 1) twoRowsState s ∧ s.output (0, 0) = 0 ∧ s.output (1, 0) = 0 := by
  have hrun : (run (loadSystem twoRows twoRowsState) always twoRowsSchedule twoRowsState).map (fun s =>
      decide (Finished twoRows s) && decide (s.output (0, 0) = 0 ∧ s.output (1, 0) = 0)) = some true := by
    decide +kernel
  obtain ⟨s, hs, hend⟩ := Option.map_eq_some_iff.1 hrun
  simp only [Bool.and_eq_true, decide_eq_true_eq] at hend
  have hbatch : twoRows.Batch := by
    refine ⟨by decide, by decide, by decide, ⟨2, rfl⟩, by decide, fun b _ => ?_, fun row row' hrow hrow' => ?_,
      fun _ _ _ => rfl⟩
    · change (1 : ℤ) < 2 ^ 31
      decide
    · have hlt : row < 1 * 2 := hrow.1
      have hlt' : row' < 1 * 2 := hrow'.1
      change 0 = 0 ↔ row / 2 = row' / 2
      omega
  have hbacked : Backed twoRows fun _ _ _ => 1 := by
    intro b _ _
    change (fun _ => 10 * (1 / 2) + 1 % 2) = fun _ => 1
    rfl
  have hfresh : Fresh twoRows twoRowsState := by
    intro row _ bucket
    change wordEpoch 0 ≠ launchEpoch 5 0 0
    decide
  have hcoherent : Coherent twoRows (fun _ _ _ => 1) twoRowsState := by
    rintro row - - - pos - hresident
    cases hresident
  exact ⟨s, hs, (load_mla_slot hbatch hbacked (fun _ => rfl) hfresh hcoherent hs).2.2 hend.1, hend.2⟩

end NanoEngine.HiSparse
