import NanoEngine.HiSparse.Tiers

/-!
# NanoEngine.HiSparse.Coherence — a decode over two tiers reads what a decode over one cache reads

* `Forward.batch`, `backed`, `fresh`, `coherent`: the launch of a layer is one that `load_mla_slot_kernel` is made for.
* `TierInv`: the residency flags and the hash tables tell the truth about the tokens of the slots' owners.
* `Forward.reads_eq`, `cold_eq`: one layer against the cache that is not tiered; `Forward.keeps`: the invariant after
  it.
* `mapMlaOutputSlots_eq`: a layer without a launch writes where a launch lets it write.
* `hisparse_eq_plain`: every layer of every run in which the layers stage their selections.
-/

namespace NanoEngine.HiSparse

open Transition Updates

variable {B : Type*} {D : ℕ}

/-! ### Rows of a cache -/

section Store

variable {c : HiSparseConfig} {rows row : ℕ} {cache : ℕ × ℕ → Fin D → B} {slots : ℕ → ℤ}
  {items : ℕ → Fin D → B}

/-- Rows of their own are all stored. -/
theorem storeKcache_row (hrow : row < rows) (hslot : slots row ≠ -1)
    (hinj : ∀ row < rows, ∀ row' < rows, slots row ≠ -1 →
    slots row' ≠ -1 → c.pageOf (slots row).toNat = c.pageOf (slots row').toNat → row = row') :
    storeKcache c rows cache slots items (c.pageOf (slots row).toNat) = items row := by
  unfold storeKcache
  have hnodup : (((List.range rows).filter fun row => slots row ≠ -1).map fun row =>
    c.pageOf (slots row).toNat).Nodup := by
    refine List.Nodup.map_on (fun row hmem row' hmem' heq => ?_) (List.nodup_range.filter _)
    simp only [List.mem_filter, List.mem_range, decide_eq_true_eq] at hmem hmem'
    exact hinj row hmem.1 row' hmem'.1 hmem.2 hmem'.2 heq
  have hmem : row ∈ (List.range rows).filter fun row => slots row ≠ -1 := by
    simp only [List.mem_filter, List.mem_range, decide_eq_true_eq]
    exact ⟨hrow, hslot⟩
  exact updateEach_of_mem hnodup hmem cache

theorem storeKcache_other {page : ℕ × ℕ}
    (h : ∀ row < rows, slots row ≠ -1 → c.pageOf (slots row).toNat ≠ page) :
    storeKcache c rows cache slots items page = cache page := by
  unfold storeKcache
  refine updateEach_of_notMem (fun hmem => ?_) cache
  obtain ⟨row, hrow, heq⟩ := List.mem_map.1 hmem
  simp only [List.mem_filter, List.mem_range, decide_eq_true_eq] at hrow
  exact h row hrow.1 hrow.2 heq

theorem attend_of_nat {indices : ℕ × ℕ → ℤ} {b : ℕ × ℕ} {n : ℕ} (h : indices b = (n : ℤ)) :
    attend c cache indices b = some (cache (c.pageOf n)) := by
  rw [attend, h, if_pos (Int.natCast_nonneg n), Int.toNat_natCast]

theorem attend_of_skip {indices : ℕ × ℕ → ℤ} {b : ℕ × ℕ} (h : indices b = -1) :
    attend c cache indices b = none := by
  rw [attend, h]
  rfl

end Store

/-! ### The epoch of a launch -/

theorem launchEpoch_eq {n : ℕ} {layerId phaseId : ℕ} (hpos : 0 < n) (hn : n < 2 ^ 21) (hlayer : layerId < 128)
    (hphase : phaseId < 8) : launchEpoch n layerId phaseId = n * 1024 + layerId * 8 + phaseId := by
  have hraw : (uint32 (n : ℤ) <<< 10) % 2 ^ 32 ||| ((layerId &&& 0x7f) <<< 3) ||| (phaseId &&& 0x7) =
      n * 1024 + layerId * 8 + phaseId := by
    have hlow : layerId &&& 0x7f = layerId := by
      rw [show 0x7f = 2 ^ 7 - 1 from rfl, Nat.and_two_pow_sub_one_eq_mod, Nat.mod_eq_of_lt hlayer]
    have hlow' : phaseId &&& 0x7 = phaseId := by
      rw [show 0x7 = 2 ^ 3 - 1 from rfl, Nat.and_two_pow_sub_one_eq_mod, Nat.mod_eq_of_lt hphase]
    have huint : uint32 (n : ℤ) = n := by
      unfold uint32
      omega
    have hshift : (n <<< 10) % 2 ^ 32 = n <<< 10 := by
      rw [Nat.shiftLeft_eq]
      omega
    have hbits : layerId <<< 3 ||| phaseId = layerId * 8 + phaseId := by
      rw [← Nat.shiftLeft_add_eq_or_of_lt (i := 3) hphase, Nat.shiftLeft_eq]
    have hlt : layerId * 8 + phaseId < 2 ^ 10 := by omega
    rw [huint, hlow, hlow', hshift, Nat.or_assoc, hbits, ← Nat.shiftLeft_add_eq_or_of_lt hlt, Nat.shiftLeft_eq]
    omega
  unfold launchEpoch
  dsimp only
  rw [hraw, and_mask31, Nat.mod_eq_of_lt (by omega), if_neg (by omega)]

/-- The epoch tells the length, the layer and the phase. -/
theorem launchEpoch_inj {n n' : ℤ} {layerId phaseId layerId' phaseId' : ℕ} (hpos : 1 ≤ n) (hn : n < 2 ^ 21)
    (hpos' : 1 ≤ n') (hn' : n' < 2 ^ 21) (hlayer : layerId < 128) (hlayer' : layerId' < 128) (hphase : phaseId < 8)
    (hphase' : phaseId' < 8) (h : launchEpoch n layerId phaseId = launchEpoch n' layerId' phaseId') :
    n = n' ∧ layerId = layerId' ∧ phaseId = phaseId' := by
  lift n to ℕ using by omega
  lift n' to ℕ using by omega
  rw [launchEpoch_eq (by omega) (by omega) hlayer hphase, launchEpoch_eq (by omega) (by omega) hlayer' hphase'] at h
  omega

/-! ### The launch of a layer -/

namespace Forward

section Rows

variable {c : HiSparseConfig} {f : Forward B D} {x : Tiers B D} {cold : ℕ × ℕ → Fin D → B} {row r : ℕ}

theorem req_lt (h : f.Shaped c) (hrow : row < f.realRows) : row / f.ntps < f.numRealReqs := by
  have hpos := h.ntps
  exact Nat.div_lt_of_lt_mul (by rwa [Nat.mul_comm])

theorem realRows_le (h : f.Shaped c) : f.realRows ≤ f.numRows := Nat.mul_le_mul_right _ h.real

/-- The row of a request that writes a given position. -/
theorem row_of_pos (h : f.Shaped c) (hr : r < f.numRealReqs) {pos : ℕ} (hstart : f.start r ≤ pos)
    (hpos : (pos : ℤ) < f.contextLens r) :
      ∃ row < f.realRows, row / f.ntps = r ∧ pos = f.start r + row % f.ntps := by
  have hlens := h.lens r hr
  have hstep : pos - f.start r < f.ntps := by
    unfold start at *
    omega
  refine ⟨r * f.ntps + (pos - f.start r), ?_, ?_, ?_⟩
  · calc r * f.ntps + (pos - f.start r) < r * f.ntps + f.ntps := Nat.add_lt_add_left hstep _
      _ = (r + 1) * f.ntps := (Nat.succ_mul _ _).symm
      _ ≤ f.numRealReqs * f.ntps := Nat.mul_le_mul_right _ hr
  · rw [Nat.mul_comm, Nat.mul_add_div h.ntps, Nat.div_eq_of_lt hstep, Nat.add_zero]
  · rw [Nat.mul_comm, Nat.mul_add_mod, Nat.mod_eq_of_lt hstep]
    omega

theorem row_eq {row' : ℕ} (hreq : row / f.ntps = row' / f.ntps) (hstep : row % f.ntps = row' % f.ntps) :
    row = row' := by
  rw [← Nat.div_add_mod row f.ntps, hreq, hstep, Nat.div_add_mod]

theorem tokensPerSeq_eq (h : f.Shaped c) : (f.loadArgs c cold).tokensPerSeq = f.ntps := by
  have hpos := h.ntps
  unfold LoadArgs.tokensPerSeq loadArgs
  dsimp only
  rw [if_pos (by omega)]
  exact Nat.max_eq_right hpos

theorem reqOffset_eq (h : f.Shaped c) : (f.loadArgs c cold).reqOffset row = row / f.ntps := by
  rw [LoadArgs.reqOffset, tokensPerSeq_eq h]

theorem tokenStep_eq (h : f.Shaped c) : (f.loadArgs c cold).tokenStep row = row % f.ntps := by
  have hmod := Nat.div_add_mod' row f.ntps
  rw [LoadArgs.tokenStep, reqOffset_eq h, tokensPerSeq_eq h]
  omega

theorem active_iff (h : f.Shaped c) : (f.loadArgs c cold).Active row ↔ row < f.realRows := by
  unfold LoadArgs.Active
  rw [tokensPerSeq_eq h]
  exact and_iff_left_of_imp fun hrow => h.slots _ (req_lt h hrow)

theorem outputStart_eq (h : f.Shaped c) (hrow : row < f.realRows) :
    (f.loadArgs c cold).outputStart row = (f.start (row / f.ntps) : ℤ) := by
  have hlens := h.lens _ (req_lt h hrow)
  rw [LoadArgs.outputStart, tokensPerSeq_eq h, start]
  change f.contextLens (row / f.ntps) - _ = _
  omega

theorem outputPos_eq (h : f.Shaped c) (hrow : row < f.realRows) :
    (f.loadArgs c cold).outputPos row = ((f.start (row / f.ntps) + row % f.ntps : ℕ) : ℤ) := by
  rw [LoadArgs.outputPos, outputStart_eq h hrow, tokenStep_eq h]
  push_cast
  rfl

theorem short_iff (h : f.Shaped c) (hrow : row < f.realRows) :
    (f.loadArgs c cold).ShortSequence row ↔ f.contextLens (row / f.ntps) ≤ (c.deviceBufferSize : ℤ) := by
  have hlens := h.lens _ (req_lt h hrow)
  have hpos := h.ntps
  refine and_iff_right ?_
  change 0 < f.contextLens (row / f.ntps)
  omega

/-- Where a row writes, inside the range of its slot. -/
theorem hotOutputSlot_eq (cold : ℕ × ℕ → Fin D → B) (h : f.Shaped c) (hfit : f.SizesFit c)
    (hrow : row < f.realRows) :
    ∃ off < c.tokensPerSeq, (f.loadArgs c cold).hotOutputSlot row =
        ((f.slot (row / f.ntps) * c.tokensPerSeq + off : ℕ) : ℤ) ∧
      off = if f.contextLens (row / f.ntps) ≤ (c.deviceBufferSize : ℤ) then f.start (row / f.ntps) + row % f.ntps
        else c.deviceBufferSize + row % f.ntps := by
  have hlens := h.lens _ (req_lt h hrow)
  have hmod := Nat.mod_lt row h.ntps
  have hstride := hfit.2.2
  refine ⟨_, ?_, ?_, rfl⟩
  · unfold start
    split <;> omega
  · unfold LoadArgs.hotOutputSlot
    rw [outputPos_eq h hrow, if_neg (by omega), tokenStep_eq h]
    change ((f.slot (row / f.ntps) * c.tokensPerSeq : ℕ) : ℤ) + _ = _
    by_cases hshort : f.contextLens (row / f.ntps) ≤ (c.deviceBufferSize : ℤ)
    · rw [if_pos ((short_iff h hrow).2 hshort), if_pos hshort]
      push_cast
      rfl
    · rw [if_neg fun hs => hshort ((short_iff h hrow).1 hs), if_neg hshort]
      push_cast
      rfl

theorem slot_inj (hf : f.Follows c x) {r' : ℕ} (hr : r < f.numRealReqs) (hr' : r' < f.numRealReqs)
    (hslot : f.slot r = f.slot r') : r = r' :=
  hf.owners r hr r' hr' (congrArg x.slotOwnerIds hslot)

/-- The hot slots that the rows write are different. -/
theorem hotOutputSlot_inj (cold : ℕ × ℕ → Fin D → B) (h : f.Shaped c) (hfit : f.SizesFit c)
    (hf : f.Follows c x) {row' : ℕ} (hrow : row < f.realRows) (hrow' : row' < f.realRows)
    (heq : (f.loadArgs c cold).hotOutputSlot row = (f.loadArgs c cold).hotOutputSlot row') :
    row = row' := by
  obtain ⟨off, hoff, hslot, hval⟩ := hotOutputSlot_eq cold h hfit hrow
  obtain ⟨off', hoff', hslot', hval'⟩ := hotOutputSlot_eq cold h hfit hrow'
  rw [hslot, hslot'] at heq
  have hindex : (f.loadArgs c cold).hotBase row + off = (f.loadArgs c cold).hotBase row' + off' := Int.ofNat.inj heq
  obtain ⟨hreq, rfl⟩ := LoadArgs.slot_of_hot hoff hoff' hindex
  have hr := slot_inj hf (req_lt h hrow) (req_lt h hrow') hreq
  rw [hval, hr] at hval'
  refine row_eq hr ?_
  split at hval' <;> omega

theorem batch (h : f.Shaped c) (hfit : f.SizesFit c) (hf : f.Follows c x) : (f.loadArgs c cold).Batch where
  topk_pos := h.topk
  union := by
    rw [tokensPerSeq_eq h, ← Nat.max_eq_right h.ntps]
    exact hfit.2.1
  stride := by
    have hpos := h.ntps
    have hstride := hfit.2.2
    rw [tokensPerSeq_eq h]
    change c.deviceBufferSize + f.ntps ≤ c.tokensPerSeq
    omega
  hash := c.unionHashCapacity_spec.imp fun _ hm => hm.1
  room := by
    obtain ⟨m, hm, hle⟩ := c.unionHashCapacity_spec
    exact hle.trans_eq hm.symm
  int32 b hgrid := ((h.selected b.1 hgrid.1 b.2 hgrid.2).1).trans (by decide)
  request row row' hrow hrow' := by
    rw [reqOffset_eq h, reqOffset_eq h]
    have hlt := req_lt h ((active_iff h).1 hrow)
    have hlt' := req_lt h ((active_iff h).1 hrow')
    exact ⟨fun hslot => slot_inj hf hlt hlt' hslot, fun hreq => congrArg f.slot hreq⟩
  length row row' hreq := by
    rw [reqOffset_eq h, reqOffset_eq h] at hreq
    exact congrArg f.contextLens hreq

/-- What a selected token that is not written by the batch is about. -/
theorem copies_spec (h : f.Shaped c) {b : ℕ × ℕ} (hcopies : (f.loadArgs c cold).Copies b)
    (hgrid : (f.loadArgs c cold).Grid b) :
    b.1 < f.realRows ∧ 0 ≤ f.topkIndices b.1 b.2 ∧ f.topkIndices b.1 b.2 < (f.start (b.1 / f.ntps) : ℤ) := by
  obtain ⟨hactive, hvalid, hspan⟩ := hcopies
  have hrow := (active_iff h).1 hactive
  have hlt := (h.selected b.1 hgrid.1 b.2 hgrid.2).2 hrow
  refine ⟨hrow, hvalid.2.1, ?_⟩
  have hstart : (f.loadArgs c cold).outputStart b.1 = (f.start (b.1 / f.ntps) : ℤ) := outputStart_eq h hrow
  rw [← hstart]
  by_contra hge
  exact hspan ⟨not_lt.1 hge, hlt⟩

end Rows

end Forward

/-- The row of every token, by the slot of its sequence. -/
def Tiers.tokens (x : Tiers B D) (layer slot pos : ℕ) : Fin D → B := x.kv (x.slotOwnerIds slot) layer pos

/-! ### The invariant -/

structure TierInv (c : HiSparseConfig) (x : Tiers B D) : Prop where
  served : ∀ slot, ∀ e ∈ x.served slot, slot < c.maxNumSeqs ∧ 1 ≤ e.1 ∧ e.1 < 2 ^ 21 ∧
    e.2.1 < 128 ∧ e.2.2 < 8
  words : ∀ slot bucket, wordEpoch (x.unionHashEntries (slot, bucket)) = 0 ∨
    ∃ e ∈ x.served slot, wordEpoch (x.unionHashEntries (slot, bucket)) = launchEpoch e.1 e.2.1 e.2.2
  resident : ∀ layer slot pos, x.residentTokens layer (slot, pos) = true →
    ∃ e ∈ x.served slot, e.2.1 = layer ∧ (pos : ℤ) < e.1
  /-- As long as the sequence is short, its resident tokens are where their positions say. -/
  coherent : ∀ layer slot pos, x.residentTokens layer (slot, pos) = true →
    (∀ e ∈ x.served slot, e.2.1 = layer → e.1 ≤ (c.deviceBufferSize : ℤ)) →
    x.hot layer (c.pageOf (slot * c.tokensPerSeq + pos)) = x.tokens layer slot pos

namespace Forward

variable {c : HiSparseConfig} {f : Forward B D} {x : Tiers B D}

theorem backed (h : f.Shaped c) (hp : f.Paged c x) :
    Backed (f.loadArgs c (x.cold f.layerIdx)) (x.tokens f.layerIdx) := by
  intro b hgrid hcopies
  obtain ⟨hrow, hnonneg, hlt⟩ := copies_spec h hcopies hgrid
  have hsrc : (f.loadArgs c (x.cold f.layerIdx)).src b =
      f.physical c (b.1 / f.ntps) (f.topkIndices b.1 b.2).toNat := if_pos hnonneg
  rw [hsrc]
  exact hp.backed _ (req_lt h hrow) _ (by omega)

theorem fresh (h : f.Shaped c) (hf : f.Follows c x) (hinv : TierInv c x) :
    Fresh (f.loadArgs c (x.cold f.layerIdx)) (f.launchState x) := by
  intro row hlong bucket hword
  have hrow := (active_iff h).1 hlong.1
  have hlens := h.lens _ (req_lt h hrow)
  have hpos := h.ntps
  change wordEpoch (x.unionHashEntries (f.slot (row / f.ntps), bucket)) =
    launchEpoch (f.contextLens (row / f.ntps)) f.layerIdx f.phaseId at hword
  rcases hinv.words (f.slot (row / f.ntps)) bucket with hzero | ⟨e, he, hepoch⟩
  · have hne := launchEpoch_pos (f.contextLens (row / f.ntps)) f.layerIdx f.phaseId
    omega
  · obtain ⟨-, hone, hlt, hlayer, hphase⟩ := hinv.served _ e he
    obtain ⟨hlen, hlayer', hphase'⟩ := launchEpoch_inj hone hlt (by omega) hlens.2 hlayer h.layer hphase h.phase
      (hepoch.symm.trans hword)
    refine hf.fresh _ (req_lt h hrow) ?_
    rw [← hlen, ← hlayer', ← hphase']
    exact he

theorem coherent (h : f.Shaped c) (hf : f.Follows c x) (hinv : TierInv c x) :
    Coherent (f.loadArgs c (x.cold f.layerIdx)) (x.tokens f.layerIdx) (f.launchState x) := by
  intro row _ hactive hshort pos _ hresident
  have hrow := (active_iff h).1 hactive
  have hle := (short_iff h hrow).1 hshort
  exact hinv.coherent f.layerIdx (f.slot (row / f.ntps)) pos hresident fun e he hlayer =>
    (hf.longer _ (req_lt h hrow) e he hlayer).trans hle

/-- A layer whose checks pass and whose launch is complete. -/
theorem stage_loaded (h : f.Shaped c) (hp : f.Paged c x) (hf : f.Follows c x) (hinv : TierInv c x) {s : LoadState B D}
    (hs : f.stageMlaSparseIndices c x = some s) : f.SizesFit c ∧
      Loaded (f.loadArgs c (x.cold f.layerIdx)) (x.tokens f.layerIdx) (f.launchState x) s := by
  unfold stageMlaSparseIndices at hs
  split at hs
  case isTrue hfit =>
    obtain ⟨hrun, hfin⟩ := Option.filter_eq_some_iff.1 hs
    have hinvariant := launchInv_invariant (batch h hfit hf) (backed h hp) (fun _ => rfl) (fresh h hf hinv)
    have hload := hinvariant.holds ((Reachable.initial rfl).of_run hrun)
    exact ⟨hfit, hload.loaded (batch h hfit hf) (of_decide_eq_true hfin) (coherent h hf hinv)⟩
  case isFalse => cases hs

theorem stage_of_none (hstaged : f.cachedHotIndices = none) : f.stage c x = f.stageMlaSparseIndices c x := by
  rw [stage, hstaged]

/-- A layer whose sizes fit has an order of the steps that ends. -/
theorem exists_schedule (hstaged : f.cachedHotIndices = none) (h : f.Shaped c) (hp : f.Paged c x) (hf : f.Follows c x)
    (hinv : TierInv c x) (hfit : f.SizesFit c) :
    ∃ schedule, ({ f with schedule }.forward c x).isSome := by
  have hinit : LoadInv _ (x.tokens f.layerIdx) _ (f.launchState x) := LoadInv.init (fun _ => rfl) (fresh h hf hinv)
  obtain ⟨schedule, s, hrun, hfin⟩ := hinit.exists_finished (batch h hfit hf) (backed h hp)
    (fun _ => rfl) (fresh h hf hinv)
  have hstage : { f with schedule }.stageMlaSparseIndices c x = some s := by
    refine (if_pos (c := f.SizesFit c) hfit).trans ?_
    exact Option.filter_eq_some_iff.2 ⟨hrun, decide_eq_true hfin⟩
  refine ⟨schedule, ?_⟩
  rw [Forward.forward, stage_of_none (f := { f with schedule }) hstaged, hstage]
  rfl

/-- A layer that reads cached hot indices puts its new rows where a launch puts them. -/
theorem mapMlaOutputSlots_eq {s : LoadState B D} {row : ℕ} (hrow : row < f.numRows)
    (hl : Loaded (f.loadArgs c (x.cold f.layerIdx)) (x.tokens f.layerIdx) (f.launchState x) s) :
    f.mapMlaOutputSlots c row = s.hotOutputSlots row := by
  rw [hl.slots row hrow]
  generalize x.cold f.layerIdx = cold
  have hwidth : (f.loadArgs c cold).tokensPerSeq = max 1 f.ntps :=
    if_pos (Nat.lt_of_lt_of_le Nat.one_pos (Nat.le_max_left 1 _))
  have hstep : (f.loadArgs c cold).tokenStep row = row - row / max 1 f.ntps * max 1 f.ntps := by
    rw [LoadArgs.tokenStep, LoadArgs.reqOffset, hwidth]
  have hpos : (f.loadArgs c cold).outputPos row = f.contextLens (row / f.ntps) - ((max 1 f.ntps : ℕ) : ℤ) +
      ((row - row / max 1 f.ntps * max 1 f.ntps : ℕ) : ℤ) := by
    rw [LoadArgs.outputPos, LoadArgs.outputStart, hwidth, hstep]
    rfl
  have hreq : row / max 1 f.ntps < f.numRealReqs ↔ row < f.numRealReqs * (f.loadArgs c cold).tokensPerSeq := by
    rw [hwidth]
    exact Nat.div_lt_iff_lt_mul (by omega)
  unfold mapMlaOutputSlots
  dsimp only
  rw [← hpos, ← hstep]
  -- both formulas give -1 outside of the active rows
  by_cases hactive : (f.loadArgs c cold).Active row
  · rw [if_pos hactive, LoadArgs.hotOutputSlot]
    obtain ⟨hreal, hslot, hbound⟩ := hactive
    have hbase : f.hisparseSlots (row / f.ntps) * (c.tokensPerSeq : ℤ) = ((f.loadArgs c cold).hotBase row : ℤ) := by
      rw [LoadArgs.hotBase, LoadArgs.slot, Int.natCast_mul, Int.toNat_of_nonneg hslot]
      rfl
    by_cases hout : (f.loadArgs c cold).outputPos row < 0
    · rw [if_neg fun h => Int.not_le.2 hout h.2.2.1, if_pos hout]
    · rw [if_pos ⟨hslot, hbound, Int.not_lt.1 hout, hreq.2 hreal⟩, if_neg hout, hbase]
      rfl
  · rw [if_neg fun h => hactive ⟨hreq.1 h.2.2.2, h.1, h.2.1⟩, if_neg hactive]

/-! ### One layer -/

section Layer

variable {s : LoadState B D} {row r : ℕ}

/-- The hot tier after the new rows are stored. -/
def storedHot (c : HiSparseConfig) (f : Forward B D) (s : LoadState B D) : ℕ × ℕ → Fin D → B :=
  storeKcache c f.numRows s.hot s.hotOutputSlots f.items

theorem physical_nonneg (hp : f.Paged c x) (hr : r < f.numRealReqs) {pos : ℕ} (hpos : (pos : ℤ) < f.contextLens r) :
    0 ≤ f.physical c r pos := by
  have htable := hp.tables r hr pos (by omega)
  exact Int.add_nonneg (Int.mul_nonneg htable (Int.natCast_nonneg _)) (Int.natCast_nonneg _)

theorem slotMapping_nonneg (h : f.Shaped c) (hp : f.Paged c x) (hrow : row < f.realRows) : 0 ≤ f.slotMapping row := by
  have hlens := h.lens _ (req_lt h hrow)
  have hmod := Nat.mod_lt row h.ntps
  rw [hp.mapping row hrow]
  refine physical_nonneg hp (req_lt h hrow) ?_
  unfold start
  omega

theorem real_of_mapped (hp : f.Paged c x) (hrow : row < f.numRows) (hmapped : f.slotMapping row ≠ -1) :
    row < f.realRows :=
  not_le.1 fun hle => hmapped (hp.padding row hrow hle)

theorem plain_reads (cache : ℕ × ℕ → Fin D → B) (row i : ℕ) : (f.plain c cache).2 (row, i) =
    if 0 ≤ f.topkIndicesToPhysical c row i then
      some ((f.plain c cache).1 (c.pageOf (f.topkIndicesToPhysical c row i).toNat))
    else none := rfl

/-- The plain cache has the new rows. -/
theorem plain_row (h : f.Shaped c) (hp : f.Paged c x) (hrow : row < f.realRows) (cache : ℕ × ℕ → Fin D → B) :
    (f.plain c cache).1 (c.pageOf (f.slotMapping row).toNat) = f.items row := by
  have hnonneg := slotMapping_nonneg h hp hrow
  refine storeKcache_row (hrow.trans_le (realRows_le h)) (by omega) fun row₁ h₁ row₂ h₂ hm₁ hm₂ hpage => ?_
  have hr₁ := real_of_mapped hp h₁ hm₁
  have hr₂ := real_of_mapped hp h₂ hm₂
  have hn₁ := slotMapping_nonneg h hp hr₁
  have hn₂ := slotMapping_nonneg h hp hr₂
  have heq := (f.loadArgs c cache).pageOf_inj hpage
  exact hp.separate row₁ hr₁ row₂ hr₂ (by omega)

/-- The plain cache keeps the tokens before the new ones. -/
theorem plain_before (h : f.Shaped c) (hp : f.Paged c x) (hr : r < f.numRealReqs) {pos : ℕ} (hpos : pos < f.start r)
    (cache : ℕ × ℕ → Fin D → B) : (f.plain c cache).1 (c.pageOf (f.physical c r pos).toNat) =
      cache (c.pageOf (f.physical c r pos).toNat) := by
  have hlen : (pos : ℤ) < f.contextLens r := by
    unfold start at hpos
    omega
  have hnonneg := physical_nonneg hp hr hlen
  refine storeKcache_other fun row hrow hmapped hpage => ?_
  have hreal := real_of_mapped hp hrow hmapped
  have hnonneg' := slotMapping_nonneg h hp hreal
  have heq := (f.loadArgs c cache).pageOf_inj hpage
  exact hp.apart row hreal r hr pos hpos (by omega)

variable (hl : Loaded (f.loadArgs c (x.cold f.layerIdx)) (x.tokens f.layerIdx) (f.launchState x) s)

include hl

theorem hotOutputSlots_real (h : f.Shaped c) (hrow : row < f.realRows) :
    s.hotOutputSlots row = (f.loadArgs c (x.cold f.layerIdx)).hotOutputSlot row := by
  rw [hl.slots row (hrow.trans_le (realRows_le h)), if_pos ((active_iff h).2 hrow)]

theorem real_of_hotOutputSlots (h : f.Shaped c) (hrow : row < f.numRows) (hslot : s.hotOutputSlots row ≠ -1) :
    row < f.realRows := by
  by_contra hge
  rw [hl.slots row hrow, if_neg fun hactive => hge ((active_iff h).1 hactive)] at hslot
  exact hslot rfl

/-- A new row is stored in the hot slot that the launch gave to it. -/
theorem storedHot_row (h : f.Shaped c) (hfit : f.SizesFit c) (hf : f.Follows c x) (hrow : row < f.realRows) :
    f.storedHot c s (c.pageOf (s.hotOutputSlots row).toNat) = f.items row := by
  have hslot : ∀ row < f.realRows, 0 ≤ s.hotOutputSlots row := by
    intro row hrow
    obtain ⟨off, -, heq, -⟩ := hotOutputSlot_eq (x.cold f.layerIdx) h hfit hrow
    rw [hotOutputSlots_real hl h hrow, heq]
    exact Int.natCast_nonneg _
  have hrow' := hslot row hrow
  refine storeKcache_row (hrow.trans_le (realRows_le h)) (by omega) fun row₁ h₁ row₂ h₂ hm₁ hm₂ hpage => ?_
  have hr₁ := real_of_hotOutputSlots hl h h₁ hm₁
  have hr₂ := real_of_hotOutputSlots hl h h₂ hm₂
  have hn₁ := hslot row₁ hr₁
  have hn₂ := hslot row₂ hr₂
  have heq := (f.loadArgs c (x.cold f.layerIdx)).pageOf_inj hpage
  refine hotOutputSlot_inj (x.cold f.layerIdx) h hfit hf hr₁ hr₂ ?_
  rw [← hotOutputSlots_real hl h hr₁, ← hotOutputSlots_real hl h hr₂]
  omega

/-- A hot slot that no row writes is as the launch left it. -/
theorem storedHot_other (h : f.Shaped c) (hfit : f.SizesFit c) {slot off : ℕ} (hoff : off < c.tokensPerSeq)
    (hne : ∀ row < f.realRows, f.slot (row / f.ntps) = slot →
      off ≠ if f.contextLens (row / f.ntps) ≤ (c.deviceBufferSize : ℤ) then f.start (row / f.ntps) + row % f.ntps
        else c.deviceBufferSize + row % f.ntps) :
    f.storedHot c s (c.pageOf (slot * c.tokensPerSeq + off)) = s.hot (c.pageOf (slot * c.tokensPerSeq + off)) := by
  refine storeKcache_other fun row hrow hslot hpage => ?_
  have hreal := real_of_hotOutputSlots hl h hrow hslot
  obtain ⟨off', hoff', heq, hval⟩ := hotOutputSlot_eq (x.cold f.layerIdx) h hfit hreal
  rw [hotOutputSlots_real hl h hreal, heq] at hpage
  have hindex := (f.loadArgs c (x.cold f.layerIdx)).pageOf_inj hpage
  rw [Int.toNat_natCast] at hindex
  have hdiv := congrArg (· / c.tokensPerSeq) hindex
  have hpos : 0 < c.tokensPerSeq := by omega
  simp only [Nat.mul_comm _ c.tokensPerSeq, Nat.mul_add_div hpos, Nat.div_eq_of_lt hoff, Nat.div_eq_of_lt hoff'] at hdiv
  have hslot' : f.slot (row / f.ntps) = slot := hdiv
  rw [hslot'] at hindex
  exact hne row hreal hslot' ((Nat.add_left_cancel hindex).symm.trans hval)

/-- **The cold tier after a layer is the plain cache after it.** -/
theorem cold_eq (h : f.Shaped c) (hp : f.Paged c x) (hfit : f.SizesFit c) (hf : f.Follows c x) :
    f.writebackMlaOutputPages c (x.cold f.layerIdx) (f.storedHot c s) s.hotOutputSlots =
      (f.plain c (x.cold f.layerIdx)).1 := by
  have hmax : max 1 f.ntps = f.ntps := Nat.max_eq_right h.ntps
  -- the rows that are written back are those that the plain cache stores
  have hrows : ∀ row ∈ List.range f.numRows,
    (decide (row < f.numRealReqs * max 1 f.ntps) && decide (0 ≤ f.slotMapping row) &&
      decide (0 ≤ s.hotOutputSlots row)) = decide (f.slotMapping row ≠ -1) := by
    intro row hmem
    rw [hmax]
    by_cases hrow : row < f.realRows
    · obtain ⟨off, -, heq, -⟩ := hotOutputSlot_eq (x.cold f.layerIdx) h hfit hrow
      have hnonneg := slotMapping_nonneg h hp hrow
      have hslot : 0 ≤ s.hotOutputSlots row := by
        rw [hotOutputSlots_real hl h hrow, heq]
        exact Int.natCast_nonneg _
      have hne : f.slotMapping row ≠ -1 := by omega
      have hreal : row < f.numRealReqs * f.ntps := hrow
      simp only [hreal, hnonneg, hslot, hne, ne_eq, not_false_eq_true, decide_true, Bool.and_self]
    · have hmapped := hp.padding row (List.mem_range.1 hmem) (not_lt.1 hrow)
      have hreal : ¬ row < f.numRealReqs * f.ntps := hrow
      simp only [hreal, hmapped, decide_false, Bool.false_and, ne_eq, not_true_eq_false]
  unfold writebackMlaOutputPages plain storeKcache
  dsimp only
  rw [List.filter_congr hrows]
  refine updateEach_congr (fun row hmem => ?_) _
  simp only [List.mem_filter, List.mem_range, decide_eq_true_eq] at hmem
  rw [storedHot_row hl h hfit hf (real_of_mapped hp hmem.1 hmem.2)]

/-- **The attention reads what it reads in the plain cache.** -/
theorem reads_eq (h : f.Shaped c) (hp : f.Paged c x) (hfit : f.SizesFit c) (hf : f.Follows c x)
    (hrow : row < f.realRows) {i : ℕ} (hi : i < f.topk) :
    attend c (f.storedHot c s) s.output (row, i) = (f.plain c (x.cold f.layerIdx)).2 (row, i) := by
  have hactive : (f.loadArgs c (x.cold f.layerIdx)).Active row := (active_iff h).2 hrow
  have hgrid : (f.loadArgs c (x.cold f.layerIdx)).Grid (row, i) := ⟨hrow.trans_le (realRows_le h), hi⟩
  have hr := req_lt h hrow
  have hlt := (h.selected row hgrid.1 i hi).2 hrow
  by_cases hvalid : 0 ≤ f.topkIndices row i
  case neg =>
    rw [attend_of_skip (hl.invalid (row, i) hgrid hactive fun hv => hvalid hv.2.1)]
    have hskip : f.topkIndicesToPhysical c row i = -1 := if_neg hvalid
    rw [plain_reads, hskip]
    rfl
  have hlen : ((f.topkIndices row i).toNat : ℤ) < f.contextLens (row / f.ntps) := by omega
  have hnonneg := physical_nonneg hp hr hlen
  have hsrc : f.topkIndicesToPhysical c row i = f.physical c (row / f.ntps) (f.topkIndices row i).toNat := if_pos hvalid
  have hplain : (f.plain c (x.cold f.layerIdx)).2 (row, i) = some ((f.plain c (x.cold f.layerIdx)).1
      (c.pageOf (f.physical c (row / f.ntps) (f.topkIndices row i).toNat).toNat)) := by
    rw [plain_reads, hsrc, if_pos hnonneg]
  have hv : (f.loadArgs c (x.cold f.layerIdx)).Valid (row, i) := by
    refine ⟨?_, hvalid, fun _ => hlt⟩
    exact hnonneg.trans_eq hsrc.symm
  rw [hplain]
  by_cases hspan : (f.loadArgs c (x.cold f.layerIdx)).OutputSpan (row, i)
  case pos =>
    -- a token of the batch: both caches have it from its row
    have hstart := hspan.1
    rw [outputStart_eq h hrow] at hstart
    change (f.start (row / f.ntps) : ℤ) ≤ f.topkIndices row i at hstart
    obtain ⟨row', hrow', hreq, hpos⟩ := row_of_pos h hr ((Int.le_toNat hvalid).2 hstart) hlen
    have hout : s.output (row, i) = s.hotOutputSlots row' := by
      rw [hotOutputSlots_real hl h hrow']
      refine hl.written (row, i) hgrid hactive hv hspan row' ?_ (congrArg f.slot hreq) ?_
      · rw [reqOffset_eq h, reqOffset_eq h]
        exact hreq
      · rw [outputPos_eq h hrow', hreq, ← hpos]
        exact Int.toNat_of_nonneg hvalid
    have hslot : 0 ≤ s.hotOutputSlots row' := by
      obtain ⟨off, -, heq, -⟩ := hotOutputSlot_eq (x.cold f.layerIdx) h hfit hrow'
      rw [hotOutputSlots_real hl h hrow', heq]
      exact Int.natCast_nonneg _
    have hmapping := hp.mapping row' hrow'
    rw [hreq, ← hpos] at hmapping
    rw [attend_of_nat (hout.trans (Int.toNat_of_nonneg hslot).symm), storedHot_row hl h hfit hf hrow', ← hmapping,
      plain_row h hp hrow']
  case neg =>
    -- an older token: it was brought to the hot tier, and no row writes there
    have hcopies : (f.loadArgs c (x.cold f.layerIdx)).Copies (row, i) := ⟨hactive, hv, hspan⟩
    obtain ⟨-, -, hbefore⟩ := copies_spec h hcopies hgrid
    change f.topkIndices row i < (f.start (row / f.ntps) : ℤ) at hbefore
    obtain ⟨off, hoff, hout, hhot, hshort⟩ := hl.fetched (row, i) hgrid hcopies
    have hstride := hfit.2.2
    have hoff' : off < c.deviceBufferSize := hoff
    rw [attend_of_nat hout, plain_before h hp hr (by omega), hp.backed _ hr _ (by omega)]
    refine congrArg some (Eq.trans ?_ hhot)
    refine storedHot_other hl h hfit (by omega) fun row' hrow' hslot hval => ?_
    have hreq := slot_inj hf (req_lt h hrow') hr hslot
    rw [hreq] at hval
    split at hval
    case isTrue hle =>
      have hoffpos := hshort ((short_iff h hrow).2 hle)
      change (off : ℤ) = f.topkIndices row i at hoffpos
      omega
    case isFalse => omega

end Layer

/-! ### The invariant after a layer -/

section Keeps

variable {row r slot : ℕ}

theorem mem_serve {e : ℤ × ℕ × ℕ} : e ∈ f.serve x slot ↔
    (∃ r < f.numRealReqs, f.slot r = slot ∧ (f.contextLens r, f.layerIdx, f.phaseId) = e) ∨
      e ∈ x.served slot := by
  unfold serve Forward.slot
  simp only [List.mem_append, List.mem_map, List.mem_filter, List.mem_range, decide_eq_true_eq, and_assoc]

/-- The token that a row writes. -/
theorem writeKv_row (h : f.Shaped c) (hf : f.Follows c x) (hrow : row < f.realRows) :
    f.writeKv x (f.owner x (row / f.ntps)) f.layerIdx (f.start (row / f.ntps) + row % f.ntps) = f.items row := by
  have hlens := h.lens _ (req_lt h hrow)
  have hfound : ∀ row' < f.realRows, f.owner x (row' / f.ntps) = f.owner x (row / f.ntps) →
      f.contextLens (row' / f.ntps) - (f.ntps : ℤ) + ((row' % f.ntps : ℕ) : ℤ) =
        ((f.start (row / f.ntps) + row % f.ntps : ℕ) : ℤ) → row' = row := by
    intro row' hrow' howner hpos
    have hreq := hf.owners _ (req_lt h hrow') _ (req_lt h hrow) howner
    rw [hreq] at hpos
    refine row_eq hreq ?_
    unfold start at hpos
    omega
  unfold writeKv
  rw [if_pos rfl]
  split
  case h_1 row' hsome =>
    have hmem := List.mem_range.1 (List.mem_of_find?_eq_some hsome)
    have hwrites := List.find?_some hsome
    simp only [decide_eq_true_eq] at hwrites
    rw [hfound row' hmem hwrites.1 hwrites.2]
  case h_2 hnone =>
    refine absurd (List.find?_eq_none.1 hnone row (List.mem_range.2 hrow)) (not_not.2 (decide_eq_true ⟨rfl, ?_⟩))
    unfold start
    omega

theorem writeKv_other (h : f.Shaped c) {id : ℤ} {layer pos : ℕ} (hne : layer = f.layerIdx → ∀ row < f.realRows,
    f.owner x (row / f.ntps) = id → f.start (row / f.ntps) + row % f.ntps ≠ pos) :
    f.writeKv x id layer pos = x.kv id layer pos := by
  unfold writeKv
  split
  case isFalse => rfl
  case isTrue hlayer =>
    split
    case h_2 => rfl
    case h_1 row hsome =>
      have hrow := List.mem_range.1 (List.mem_of_find?_eq_some hsome)
      have hwrites := List.find?_some hsome
      simp only [decide_eq_true_eq] at hwrites
      have hlens := h.lens _ (req_lt h hrow)
      refine absurd ?_ (hne hlayer row hrow hwrites.1)
      have hpos := hwrites.2
      unfold start
      omega

variable {s : LoadState B D} (hl : Loaded (f.loadArgs c (x.cold f.layerIdx)) (x.tokens f.layerIdx) (f.launchState x) s)

include hl

/-- A flag that is set after the launch is for a token that a slot has been served with. -/
theorem resident_served (h : f.Shaped c) (hinv : TierInv c x) {pos : ℕ} (hr : s.residentTokens (slot, pos) = true) :
    ∃ e ∈ f.serve x slot, e.2.1 = f.layerIdx ∧ (pos : ℤ) < e.1 := by
  rcases hl.resident slot pos hr with hold | ⟨row, -, hactive, -, hslot, hpos⟩
  · obtain ⟨e, he, hlayer, hlt⟩ := hinv.resident f.layerIdx slot pos hold
    exact ⟨e, mem_serve.2 (.inr he), hlayer, hlt⟩
  · exact ⟨_, mem_serve.2 (.inl ⟨_, req_lt h ((active_iff h).1 hactive), hslot, rfl⟩), rfl, hpos⟩

/-- The slots of the batch: older tokens are left alone, and the new ones are stored where their positions say. -/
theorem storedHot_batch (h : f.Shaped c) (hfit : f.SizesFit c) (hf : f.Follows c x) (hinv : TierInv c x)
    (hr : r < f.numRealReqs) (hle : f.contextLens r ≤ (c.deviceBufferSize : ℤ)) {pos : ℕ}
    (hresident : s.residentTokens (f.slot r, pos) = true) :
    f.storedHot c s (c.pageOf (f.slot r * c.tokensPerSeq + pos)) = f.writeKv x (f.owner x r) f.layerIdx pos := by
  have hstride := hfit.2.2
  have hlens := h.lens r hr
  have hpos : (pos : ℤ) < f.contextLens r := by
    obtain ⟨e, he, hlayer, hlt⟩ := resident_served hl h hinv hresident
    rcases mem_serve.1 he with ⟨r', hr', hslot, rfl⟩ | hold
    · rwa [slot_inj hf hr' hr hslot] at hlt
    · exact hlt.trans_le (hf.longer r hr e hold hlayer)
  -- older tokens were in the tier already; the new ones are stored by their own row
  by_cases hbefore : pos < f.start r
  · have hhot : s.hot (c.pageOf (f.slot r * c.tokensPerSeq + pos)) = x.tokens f.layerIdx (f.slot r) pos := by
      have hrow : r * f.ntps < f.realRows := Nat.mul_lt_mul_of_pos_right hr h.ntps
      have hreq : r * f.ntps / f.ntps = r := Nat.mul_div_cancel _ h.ntps
      have hcoherent := hl.coherent (r * f.ntps) (hrow.trans_le (realRows_le h)) ((active_iff h).2 hrow)
        ((short_iff h hrow).2 (by rwa [hreq])) pos
      rw [outputStart_eq h hrow, hreq] at hcoherent
      have hbase : (f.loadArgs c (x.cold f.layerIdx)).hotBase (r * f.ntps) = f.slot r * c.tokensPerSeq := by
        change f.slot (r * f.ntps / f.ntps) * c.tokensPerSeq = _
        rw [hreq]
      have hslot : (f.loadArgs c (x.cold f.layerIdx)).slot (r * f.ntps) = f.slot r := congrArg f.slot hreq
      rw [hbase, hslot] at hcoherent
      exact hcoherent (by omega) hresident
    rw [writeKv_other h fun _ row hrow howner heq => ?_]
    · refine Eq.trans ?_ hhot
      refine storedHot_other hl h hfit (by omega) fun row hrow hslot heq => ?_
      rw [slot_inj hf (req_lt h hrow) hr hslot, if_pos hle] at heq
      omega
    · rw [hf.owners _ (req_lt h hrow) _ hr howner] at heq
      omega
  · obtain ⟨row, hrow, rfl, rfl⟩ := row_of_pos h hr (not_lt.1 hbefore) hpos
    obtain ⟨off, -, heq, hoff⟩ := hotOutputSlot_eq (x.cold f.layerIdx) h hfit hrow
    rw [if_pos hle] at hoff
    subst hoff
    have hstored := storedHot_row hl h hfit hf hrow
    rw [hotOutputSlots_real hl h hrow, heq, Int.toNat_natCast] at hstored
    rw [hstored, writeKv_row h hf hrow]

/-- The other slots: no row writes there, and none writes a token of theirs. -/
theorem storedHot_apart (h : f.Shaped c) (hfit : f.SizesFit c) (hf : f.Follows c x) (hinv : TierInv c x)
    (hne : ∀ r < f.numRealReqs, f.slot r ≠ slot)
    (hle : ∀ e ∈ x.served slot, e.2.1 = f.layerIdx → e.1 ≤ (c.deviceBufferSize : ℤ)) {pos : ℕ}
    (hresident : s.residentTokens (slot, pos) = true) :
    f.storedHot c s (c.pageOf (slot * c.tokensPerSeq + pos)) = f.writeKv x (x.slotOwnerIds slot) f.layerIdx pos := by
  -- no row of the batch is of this slot, so the flag is an old one
  have hold : x.residentTokens f.layerIdx (slot, pos) = true := by
    refine (hl.resident slot pos hresident).resolve_right ?_
    rintro ⟨row, -, hactive, -, hslot, -⟩
    exact hne _ (req_lt h ((active_iff h).1 hactive)) hslot
  obtain ⟨e, he, hlayer, hlt⟩ := hinv.resident f.layerIdx slot pos hold
  have hcap := hle e he hlayer
  have hstride := hfit.2.2
  have hmax := Nat.le_max_left 1 f.ntps
  rw [storedHot_other hl h hfit (by omega) fun row hrow hslot => absurd hslot (hne _ (req_lt h hrow)), hl.hot,
    writeKv_other h fun _ row hrow howner heq => ?_]
  · exact hinv.coherent f.layerIdx slot pos hold hle
  · have hbound := (hinv.served slot e he).1
    have hstart := hf.left _ (req_lt h hrow) slot hbound
      ⟨fun heq => hne _ (req_lt h hrow) heq.symm, howner.symm⟩ e he hlayer
    omega
  · intro row _ hactive off hoff hpage
    have hindex := (f.loadArgs c (x.cold f.layerIdx)).pageOf_inj hpage
    have hoff' : off < c.deviceBufferSize := hoff
    have hdiv := congrArg (· / c.tokensPerSeq) hindex
    change (slot * c.tokensPerSeq + pos) / c.tokensPerSeq =
      (f.slot (row / f.ntps) * c.tokensPerSeq + off) / c.tokensPerSeq at hdiv
    rw [Nat.mul_comm, Nat.mul_add_div (by omega), Nat.div_eq_of_lt (a := pos) (by omega), Nat.mul_comm,
      Nat.mul_add_div (by omega), Nat.div_eq_of_lt (a := off) (by omega)] at hdiv
    exact hne _ (req_lt h ((active_iff h).1 hactive)) hdiv.symm

end Keeps

/-- **A layer keeps the invariant.** -/
theorem keeps (hstaged : f.cachedHotIndices = none) (h : f.Shaped c) (hp : f.Paged c x) (hf : f.Follows c x)
    (hinv : TierInv c x) {x' : Tiers B D} (hnext : f.forward c x = some x') : TierInv c x' := by
  obtain ⟨s, hs, rfl⟩ := Option.map_eq_some_iff.1 hnext
  rw [stage_of_none hstaged] at hs
  obtain ⟨hfit, hl⟩ := stage_loaded h hp hf hinv hs
  refine ⟨fun slot e he => ?_, fun slot bucket => ?_, fun layer slot pos hr => ?_, fun layer slot pos hr hle => ?_⟩
  · rcases mem_serve.1 he with ⟨r, hr, rfl, rfl⟩ | hold
    · have hslots := h.slots r hr
      have hlens := h.lens r hr
      have hpos := h.ntps
      refine ⟨?_, ?_, hlens.2, h.layer, h.phase⟩
      · unfold Forward.slot
        omega
      · dsimp only
        omega
    · exact hinv.served slot e hold
  · change wordEpoch (s.unionHashEntries (slot, bucket)) = 0 ∨ ∃ e ∈ f.serve x slot,
      wordEpoch (s.unionHashEntries (slot, bucket)) = launchEpoch e.1 e.2.1 e.2.2
    rcases hl.table slot bucket with hsame | ⟨row, -, hlong, hslot, hepoch⟩
    · rw [hsame]
      exact (hinv.words slot bucket).imp_right fun ⟨e, he, hword⟩ => ⟨e, mem_serve.2 (.inr he), hword⟩
    · exact .inr ⟨_, mem_serve.2 (.inl ⟨_, req_lt h ((active_iff h).1 hlong.1), hslot, rfl⟩), hepoch⟩
  · change Function.update x.residentTokens f.layerIdx s.residentTokens layer (slot, pos) = true at hr
    by_cases hlayer : layer = f.layerIdx
    · subst hlayer
      rw [Function.update_self] at hr
      exact resident_served hl h hinv hr
    · rw [Function.update_of_ne hlayer] at hr
      exact (hinv.resident layer slot pos hr).imp fun e he => ⟨mem_serve.2 (.inr he.1), he.2⟩
  · change Function.update x.residentTokens f.layerIdx s.residentTokens layer (slot, pos) = true at hr
    change ∀ e ∈ f.serve x slot, e.2.1 = layer → e.1 ≤ (c.deviceBufferSize : ℤ) at hle
    change Function.update x.hot f.layerIdx (f.storedHot c s) layer (c.pageOf (slot * c.tokensPerSeq + pos)) =
      f.writeKv x (x.slotOwnerIds slot) layer pos
    by_cases hlayer : layer = f.layerIdx
    · subst hlayer
      rw [Function.update_self] at hr ⊢
      by_cases hmem : ∃ r < f.numRealReqs, f.slot r = slot
      · obtain ⟨r, hlt, rfl⟩ := hmem
        exact storedHot_batch hl h hfit hf hinv hlt (hle _ (mem_serve.2 (.inl ⟨r, hlt, rfl, rfl⟩)) rfl) hr
      · exact storedHot_apart hl h hfit hf hinv (fun r hlt heq => hmem ⟨r, hlt, heq⟩)
          (fun e he => hle e (mem_serve.2 (.inr he))) hr
    · rw [Function.update_of_ne hlayer] at hr ⊢
      rw [writeKv_other h fun heq => absurd heq hlayer]
      exact hinv.coherent layer slot pos hr fun e he => hle e (mem_serve.2 (.inr he))

end Forward

/-! ### The other operations -/

namespace TierInv

variable {c : HiSparseConfig} {x : Tiers B D}

theorem updateOwner (hinv : TierInv c x) (slot seqId : ℤ) : TierInv c (x.updateOwner c slot seqId) := by
  unfold Tiers.updateOwner
  split
  case isFalse => exact hinv
  case isTrue =>
    refine ⟨fun slot' e he => ?_, fun slot' bucket => ?_, fun layer slot' pos hr => ?_,
      fun layer slot' pos hr hle => ?_⟩
    all_goals by_cases heq : slot' = slot.toNat
    · subst heq
      simp [Tiers.resetSlot] at he
    · refine hinv.served slot' e ?_
      simpa [Tiers.resetSlot, heq] using he
    · left
      simp [Tiers.resetSlot, heq, wordEpoch]
    · simpa [Tiers.resetSlot, heq] using hinv.words slot' bucket
    · simp [Tiers.resetSlot, heq] at hr
    · simpa [Tiers.resetSlot, heq] using hinv.resident layer slot' pos (by simpa [Tiers.resetSlot, heq] using hr)
    · simp [Tiers.resetSlot, heq] at hr
    · simpa [Tiers.resetSlot, Tiers.tokens, heq] using hinv.coherent layer slot' pos
        (by simpa [Tiers.resetSlot, heq] using hr) (by simpa [Tiers.resetSlot, heq] using hle)

theorem owners (hinv : TierInv c x) (pairs : List (ℤ × ℤ)) : TierInv c (x.updateMlaHisparseSlotOwners c pairs) :=
  List.foldlRecOn _ _ hinv fun _ h p _ => h.updateOwner p.1 p.2

theorem writeCold (hinv : TierInv c x) {seqId : ℤ} {layer pos : ℕ} {item : Fin D → B}
    (h : x.Rewrites c seqId layer pos item) (index : ℕ) : TierInv c (x.writeCold c seqId layer pos index item) where
  served := hinv.served
  words := hinv.words
  resident := hinv.resident
  coherent layer' slot pos' hr hle := by
    refine (hinv.coherent layer' slot pos' hr hle).trans ?_
    change x.kv (x.slotOwnerIds slot) layer' pos' =
      if x.slotOwnerIds slot = seqId ∧ layer' = layer ∧ pos' = pos then item
      else x.kv (x.slotOwnerIds slot) layer' pos'
    split
    case isFalse => rfl
    case isTrue heq =>
      obtain ⟨rfl, rfl, rfl⟩ := heq
      refine h.resolve_right fun hno => ?_
      obtain ⟨e, he, -⟩ := hinv.resident layer' slot pos' hr
      exact hno slot (hinv.served slot e he).1 rfl

end TierInv

section Runs

variable [DecidableEq B] {c : HiSparseConfig} {x x₀ : Tiers B D} {f : Forward B D}

theorem tierGuard_forward (h : tierGuard c x (.forward f) = true) :
    f.cachedHotIndices = none ∧ f.Shaped c ∧ f.Paged c x ∧ f.Follows c x := by
  simp only [tierGuard, Bool.and_eq_true, decide_eq_true_eq, Option.isNone_iff_eq_none] at h
  exact ⟨h.1.1.1, h.1.1.2, h.1.2, h.2⟩

theorem tierInv_invariant : Invariant (tierSystem B D c) (tierGuard c) (TierInv c) where
  initial x h := by
    obtain ⟨hresident, hwords, -, hserved⟩ := h
    refine ⟨fun slot e he => ?_, fun slot bucket => .inl ?_, fun layer slot pos hr => ?_,
      fun layer slot pos hr => ?_⟩
    · rw [hserved slot] at he
      cases he
    · rw [hwords]
      rfl
    · rw [hresident] at hr
      cases hr
    · rw [hresident] at hr
      cases hr
  next x op x' hinv hguard hnext := by
    cases op with
    | owners pairs =>
      obtain rfl := Option.some.inj hnext
      exact hinv.owners pairs
    | writeCold seqId layer pos index item =>
      obtain rfl := Option.some.inj hnext
      exact hinv.writeCold (of_decide_eq_true hguard) index
    | forward f =>
      obtain ⟨hstaged, h, hp, hf⟩ := tierGuard_forward hguard
      exact f.keeps hstaged h hp hf hinv hnext

/-- One step of the tiers is the step of the plain caches. -/
theorem cold_step {op : TierOp B D} {x' : Tiers B D} (hinv : TierInv c x) (hguard : tierGuard c x op = true)
    (hnext : (tierSystem B D c).next x op = some x') : x'.cold = plainStep c x.cold op := by
  cases op with
  | owners pairs =>
    obtain rfl := Option.some.inj hnext
    refine List.foldlRecOn pairs _ (motive := fun y : Tiers B D => y.cold = x.cold) rfl fun y hy p _ => ?_
    unfold Tiers.updateOwner
    split <;> exact hy
  | writeCold seqId layer pos index item =>
    obtain rfl := Option.some.inj hnext
    rfl
  | forward f =>
    obtain ⟨hstaged, h, hp, hf⟩ := tierGuard_forward hguard
    obtain ⟨s, hs, rfl⟩ := Option.map_eq_some_iff.1 hnext
    rw [Forward.stage_of_none hstaged] at hs
    obtain ⟨hfit, hl⟩ := f.stage_loaded h hp hf hinv hs
    exact congrArg (Function.update x.cold f.layerIdx) (f.cold_eq hl h hp hfit hf)

theorem cold_run {ops : List (TierOp B D)} (hinv : TierInv c x₀)
    (hrun : run (tierSystem B D c) (tierGuard c) ops x₀ = some x) : x.cold = ops.foldl (plainStep c) x₀.cold := by
  induction ops generalizing x₀ with
  | nil =>
    cases hrun
    rfl
  | cons op ops ih =>
    unfold run at hrun
    split at hrun
    case isFalse => cases hrun
    case isTrue hguard =>
      obtain ⟨x₁, hnext, hrest⟩ := Option.bind_eq_some_iff.1 hrun
      rw [List.foldl_cons, ← cold_step hinv hguard hnext]
      exact ih (tierInv_invariant.next _ _ _ hinv hguard hnext) hrest

/-- **Decoding over the two tiers is decoding over one cache**, as long as the layers stage their selections: after any
run the cold tier is the cache that the same operations make without a hot tier, and in every layer, whatever the order
of the steps on the device, the attention of the real rows reads what it reads there; a layer whose sizes fit can always
be brought to its end. -/
theorem hisparse_eq_plain {ops : List (TierOp B D)} (hinit : (tierSystem B D c).initial x₀)
    (hrun : run (tierSystem B D c) (tierGuard c) ops x₀ = some x) (hguard : tierGuard c x (.forward f) = true) :
    x.cold = ops.foldl (plainStep c) x₀.cold ∧
      (∀ x', (tierSystem B D c).next x (.forward f) = some x' → ∀ row < f.realRows, ∀ i < f.topk,
        x'.reads (row, i) = (f.plain c (ops.foldl (plainStep c) x₀.cold f.layerIdx)).2 (row, i)) ∧
      (f.SizesFit c → ∃ schedule, ((tierSystem B D c).next x (.forward { f with schedule })).isSome) := by
  have hinv := tierInv_invariant.holds ((Reachable.initial hinit).of_run hrun)
  have hcold := cold_run (tierInv_invariant.initial x₀ hinit) hrun
  obtain ⟨hstaged, h, hp, hf⟩ := tierGuard_forward hguard
  refine ⟨hcold, fun x' hnext row hrow i hi => ?_, fun hfit => ?_⟩
  · obtain ⟨s, hs, rfl⟩ := Option.map_eq_some_iff.1 hnext
    rw [Forward.stage_of_none hstaged] at hs
    obtain ⟨hfit, hl⟩ := f.stage_loaded h hp hf hinv hs
    rw [← hcold]
    exact f.reads_eq hl h hp hfit hf hrow hi
  · exact f.exists_schedule hstaged h hp hf hinv hfit

end Runs

/-- One slot with two rows in the hot tier and a page for the new ones. -/
def oneSlot : HiSparseConfig := ⟨1, 2, 2⟩

/-- A row of the only request: it selects the first two tokens. -/
def oneRow (contextLen : ℤ) (item : ℕ) (schedule : List (LoadOp 1)) : Forward ℕ 1 where
  layerIdx := 0
  phaseId := 0
  numReqs := 1
  numRealReqs := 1
  ntps := 1
  topk := 2
  hisparseSlots _ := 0
  contextLens _ := contextLen
  blockTables _ block := block
  slotMapping _ := contextLen - 1
  topkIndices _ i := i
  items _ _ := item
  cachedHotIndices := none
  result _ := 0
  emptySlots _ := 0
  schedule := schedule

def emptyTiers : Tiers ℕ 1 := ⟨fun _ => -1, fun _ _ => false, fun _ _ _ => 0, fun _ _ _ => 0,
    fun _ => 0, fun _ => 0,
  fun _ => none, fun _ _ _ _ => 0, fun _ => []⟩

/-- The first token is prefilled, the second one decoded while the sequence is short. -/
def shortDecode : List (TierOp ℕ 1) :=
  [.writeCold 7 0 0 0 fun _ => 10, .owners [(0, 7)],
    .forward (oneRow 2 11 [.thread0 (0, 1), .thread0 (0, 0), .thread0 (0, 0), .copyByte (0, 0) 0, .thread0 (0, 1),
      .thread0 (0, 0), .thread0 (0, 0)])]

/-- The third token: both older ones are brought to the hot tier through the hash table. -/
def longDecode : Forward ℕ 1 :=
  oneRow 3 12 [.thread0 (0, 1), .thread0 (0, 0), .thread0 (0, 0), .thread0 (0, 0), .thread0 (0, 1), .thread0 (0, 0),
    .thread0 (0, 0), .thread0 (0, 0), .thread0 (0, 1), .thread0 (0, 1), .thread0 (0, 1),
      .copyByte (0, 0) 0, .thread0 (0, 1),
    .thread0 (0, 0), .copyByte (0, 1) 0, .thread0 (0, 0), .thread0 (0, 1), .thread0 (0, 1)]

theorem hisparse_eq_plain_longDecode : ∃ x x',
    run (tierSystem ℕ 1 oneSlot) (tierGuard oneSlot) shortDecode emptyTiers = some x ∧
    (tierSystem ℕ 1 oneSlot).next x (.forward longDecode) = some x' ∧ ∀ i < 2, x'.reads (0, i) =
      (longDecode.plain oneSlot (shortDecode.foldl (plainStep oneSlot) emptyTiers.cold 0)).2 (0, i) := by
  have hrun : (run (tierSystem ℕ 1 oneSlot) (tierGuard oneSlot) shortDecode emptyTiers).map (fun x =>
      tierGuard oneSlot x (.forward longDecode) && ((tierSystem ℕ 1 oneSlot).next x (.forward longDecode)).isSome) =
        some true := by
    decide +kernel
  obtain ⟨x, hx, hend⟩ := Option.map_eq_some_iff.1 hrun
  rw [Bool.and_eq_true] at hend
  obtain ⟨x', hx'⟩ := Option.isSome_iff_exists.1 hend.2
  have hinit : (tierSystem ℕ 1 oneSlot).initial emptyTiers :=
    ⟨fun _ _ => rfl, fun _ => rfl, fun _ => rfl, fun _ => rfl⟩
  exact ⟨x, x', hx, hx', fun i hi => (hisparse_eq_plain hinit hx hend.1).2.1 x' hx' 0 (by decide) i hi⟩

end NanoEngine.HiSparse
