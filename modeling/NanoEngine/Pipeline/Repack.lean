import NanoEngine.Proto.Prepare

/-!
# NanoEngine.Pipeline.Repack — microbatches hold the batch and nothing else

* `Splits`: what the fragments of a row contribute one after another is what the row contributes.
* `RepackInv`: the invariant of the packing loops; it goes through `packRows_rule`.
* `repacked_prefillMicrobatches`: sizes, contents and last fragments of the microbatches.
-/

namespace NanoEngine

open WireBatch

/-- What a row contributes depends on its tokens only, piece by piece. -/
structure Splits {β : Type} (batch : WireBatch) (e : PackedRow → List β) : Prop where
  append : ∀ i a b c isLast, a ≤ b → b ≤ c →
    e (batch.fragment i a c true) = e (batch.fragment i a b true) ++ e (batch.fragment i b c isLast)
  nil : ∀ i a, e (batch.fragment i a a true) = []

/-- The fragments of all calls, in order. -/
def callMeta (calls : List Microbatch) : List (ℕ × Bool) := calls.flatMap Prod.snd

/-- What all calls contribute, in order. -/
def callRows {β : Type} (e : PackedRow → List β) (calls : List Microbatch) : List β :=
  calls.flatMap fun c => c.1.packedRows.flatMap e

/-- Row `j` has one last fragment, and no fragment after it. -/
def LastOnce (l : List (ℕ × Bool)) (j : ℕ) : Prop :=
  ∃ pre post, l = pre ++ (j, true) :: post ∧ (j, true) ∉ pre ∧ ∀ m ∈ post, m.1 ≠ j

theorem LastOnce.append {l l' : List (ℕ × Bool)} {j : ℕ} (h : LastOnce l j) (hl' : ∀ m ∈ l', m.1 ≠ j) :
    LastOnce (l ++ l') j := by
  obtain ⟨pre, post, rfl, hpre, hpost⟩ := h
  refine ⟨pre, post ++ l', by simp, hpre, fun m hm => ?_⟩
  rcases List.mem_append.1 hm with hm | hm
  · exact hpost m hm
  · exact hl' m hm

/-- The loop invariant: the tokens of the rows before `i`, and of row `i` up to `a`, are packed in order. -/
structure RepackInv (batch : WireBatch) (maxTokens i a : ℕ) (st : MicroState) : Prop extends RowInv batch i a st where
  rows : ∀ {β : Type} (e : PackedRow → List β), Splits batch e →
    callRows e st.calls =
      ((List.range i).flatMap fun j => e (batch.packedRow j)) ++ e (batch.fragment i (batch.rowOffset i) a true)
  packed : ∀ c ∈ st.calls, batch.Packs c.1
  full : ∀ c ∈ st.result, c.1.inputIds.length = maxTokens
  metaLe : ∀ m ∈ callMeta st.calls, m.1 ≤ i
  notEnded : a < batch.rowOffset i + batch.seqLen i ∨ batch.seqLen i = 0 → (i, true) ∉ callMeta st.calls
  lastOnce : ∀ j, 0 < batch.seqLen j → j < i ∨ j = i ∧ a = batch.rowOffset i + batch.seqLen i →
    LastOnce (callMeta st.calls) j

section Loop

variable {batch : WireBatch} {maxTokens i a b : ℕ} {st : MicroState}

theorem callMeta_flush (batch : WireBatch) (st : MicroState) : callMeta (st.flush batch).calls = callMeta st.calls := by
  simp [callMeta, MicroState.calls, MicroState.flush]

theorem RepackInv.flush (h : RepackInv batch maxTokens i a st) (hlen : st.microbatch.inputIds.length = maxTokens) :
    RepackInv batch maxTokens i a (st.flush batch) where
  toRowInv := h.toRowInv.flush
  rows := by
    intro β e he
    rw [← h.rows e he]
    simp [callRows, MicroState.calls, MicroState.flush, WireBatch.packedRows, WireBatch.makeMicrobatch, WireBatch.empty]
  packed := by
    intro c hc
    rcases List.mem_append.1 hc with hc | hc
    · exact h.packed c hc
    · rw [List.mem_singleton.1 hc]
      exact batch.packs_makeMicrobatch
  full := by
    intro c hc
    rcases List.mem_append.1 hc with hc | hc
    · exact h.full c hc
    · rw [List.mem_singleton.1 hc]
      exact hlen
  metaLe := by
    rw [callMeta_flush]
    exact h.metaLe
  notEnded := by
    rw [callMeta_flush]
    exact h.notEnded
  lastOnce := by
    rw [callMeta_flush]
    exact h.lastOnce

theorem callMeta_push (batch : WireBatch) (i a b rowEnd : ℕ) (st : MicroState) :
    callMeta (st.push batch i a b rowEnd).calls = callMeta st.calls ++ [(i, decide (b = rowEnd))] := by
  simp [callMeta, MicroState.calls, MicroState.push]

/-- The fragment from `a` to `b` of row `i` contributes the next piece of the row. -/
theorem RepackInv.push (h : RepackInv batch maxTokens i a st) (hwf : batch.WellFormed) (hi : i < batch.seqLens.length)
    (hstart : batch.rowOffset i ≤ a) (hab : a < b) (hb : b ≤ batch.rowOffset i + batch.seqLen i) :
    RepackInv batch maxTokens i b (st.push batch i a b (batch.rowOffset i + batch.seqLen i)) where
  toRowInv := h.toRowInv.push hwf hi hstart hab hb
  rows := by
    intro β e he
    have hids : b ≤ batch.inputIds.length := hb.trans (hwf.row_le hi).1
    have hpos : b ≤ batch.positions.length := hb.trans (hwf.row_le hi).2
    have hrows := WireBatch.packedRows_pushFragment i
      (decide (b = batch.rowOffset i + batch.seqLen i)) h.packs hab.le hids
      hpos
    have hcalls : callRows e (st.push batch i a b (batch.rowOffset i + batch.seqLen i)).calls =
        callRows e st.calls ++ e (batch.fragment i a b (decide (b = batch.rowOffset i + batch.seqLen i))) := by
      simp only [callRows, MicroState.calls, MicroState.push, List.flatMap_append, List.flatMap_singleton, hrows,
        List.append_assoc]
    rw [hcalls, h.rows e he, List.append_assoc, ← he.append i _ a b _ hstart hab.le]
  packed := by
    intro c hc
    rcases List.mem_append.1 hc with hc | hc
    · exact h.packed c (List.mem_append_left _ hc)
    · rw [List.mem_singleton.1 hc]
      exact h.packs.push hab.le (hb.trans (hwf.row_le hi).1) (hb.trans (hwf.row_le hi).2)
  full := h.full
  metaLe := by
    rw [callMeta_push]
    intro m hm
    rcases List.mem_append.1 hm with hm | hm
    · exact h.metaLe m hm
    · rw [List.mem_singleton.1 hm]
  notEnded := by
    rw [callMeta_push]
    intro hopen hmem
    rcases List.mem_append.1 hmem with hmem | hmem
    · exact h.notEnded (Or.inl (by omega)) hmem
    · have hlast := (Prod.ext_iff.1 (List.mem_singleton.1 hmem)).2
      have hend := of_decide_eq_true hlast.symm
      omega
  -- a row is marked as ended by the fragment that reaches its end, and by no other
  lastOnce := by
    rw [callMeta_push]
    rintro j hj (hlt | ⟨rfl, hend⟩)
    · refine (h.lastOnce j hj (Or.inl hlt)).append fun m hm => ?_
      rw [List.mem_singleton.1 hm]
      exact hlt.ne'
    · refine ⟨callMeta st.calls, [], by rw [decide_eq_true hend], h.notEnded (Or.inl (by omega)), fun m hm => ?_⟩
      cases hm

theorem RepackInv.next (h : RepackInv batch maxTokens i (batch.rowOffset i + batch.seqLen i) st)
    (hi : i < batch.seqLens.length) : RepackInv batch maxTokens (i + 1) (batch.rowOffset (i + 1)) st where
  toRowInv := h.toRowInv.next hi
  rows := by
    intro β e he
    rw [h.rows e he, he.nil, List.append_nil, List.range_succ, List.flatMap_append, List.flatMap_singleton,
      ← WireBatch.packedRow_eq_fragment]
  packed := h.packed
  full := h.full
  metaLe := fun m hm => (h.metaLe m hm).trans (Nat.le_succ i)
  notEnded := fun _ hmem => absurd (h.metaLe _ hmem) (Nat.not_succ_le_self i)
  lastOnce := by
    rintro j hj (hlt | ⟨rfl, hend⟩)
    · rcases Nat.lt_succ_iff_lt_or_eq.1 hlt with hlt | rfl
      · exact h.lastOnce j hj (Or.inl hlt)
      · exact h.lastOnce j hj (Or.inr ⟨rfl, rfl⟩)
    · omega

theorem RepackInv.init (batch : WireBatch) (maxTokens : ℕ) :
    RepackInv batch maxTokens 0 (batch.rowOffset 0) ⟨[], batch.makeMicrobatch, []⟩ where
  toMicroInv := MicroInv.init batch
  rowEnded := fun hlt => absurd hlt (lt_irrefl _)
  rows := by
    intro β e he
    rw [he.nil]
    rfl
  packed := by
    intro c hc
    rw [List.mem_singleton.1 hc]
    exact batch.packs_makeMicrobatch
  full := fun c hc => absurd hc List.not_mem_nil
  metaLe := fun m hm => absurd hm List.not_mem_nil
  notEnded := fun _ hm => absurd hm List.not_mem_nil
  lastOnce := by
    rintro j hj (hlt | ⟨rfl, hend⟩)
    · exact absurd hlt (Nat.not_lt_zero j)
    · omega

end Loop

section Contents

variable {batch : WireBatch} {maxTokens blockSize : ℕ}

theorem slice_append {α : Type} (l : List α) {a b c : ℕ} (hab : a ≤ b) (hbc : b ≤ c) :
    (l.take c).drop a = (l.take b).drop a ++ (l.take c).drop b := by
  rw [List.drop_take, List.drop_take, List.drop_take, show c - a = (b - a) + (c - b) by omega, List.take_add,
    List.drop_drop, Nat.add_sub_cancel' hab]

theorem splits_inputIds (batch : WireBatch) : Splits batch PackedRow.inputIds where
  append := fun _ _ _ _ _ hab hbc => slice_append batch.inputIds hab hbc
  nil := fun i a => List.drop_of_length_le (by rw [List.length_take]; exact Nat.min_le_left _ _)

theorem splits_positions (batch : WireBatch) : Splits batch PackedRow.positions where
  append := fun _ _ _ _ _ hab hbc => slice_append batch.positions hab hbc
  nil := fun i a => List.drop_of_length_le (by rw [List.length_take]; exact Nat.min_le_left _ _)

/-- All fragments of a row have its block table. -/
theorem splits_slots (batch : WireBatch) (blockSize : ℕ) : Splits batch (PackedRow.slots blockSize) where
  append := fun i a b c isLast hab hbc => by
    unfold PackedRow.slots
    rw [(splits_positions batch).append i a b c isLast hab hbc, List.map_append]
    rfl
  nil := fun i a => by
    rw [PackedRow.slots, (splits_positions batch).nil i a]
    rfl

/-- What the microbatches of a batch have to do with it. -/
structure Repacked (batch : WireBatch) (maxTokens : ℕ) (calls : List Microbatch) : Prop where
  size : ∀ c ∈ calls, c.1.inputIds.length ≤ maxTokens
  full : ∀ c ∈ calls.dropLast, c.1.inputIds.length = maxTokens
  inputIds : (calls.flatMap fun c => c.1.inputIds) = batch.inputIds
  positions : (calls.flatMap fun c => c.1.positions) = batch.positions
  /-- A token without a block in the table of its row gets its index in its own call. -/
  slotMapping : ∀ spSize blockSize maxNumSeqs,
    (calls.flatMap fun c => (runnerInPrefill false c.1 spSize blockSize maxNumSeqs).slotMapping) =
      (batch.tokenSlots blockSize).zipIdx.map fun x => ((x.1.getD (x.2 % maxTokens) : ℕ) : ℤ)
  /-- The slots are those of the whole batch if, and only if, all tokens behind the first call have their blocks. -/
  slotMapping_eq : ∀ spSize blockSize maxNumSeqs,
    (calls.flatMap fun c => (runnerInPrefill false c.1 spSize blockSize maxNumSeqs).slotMapping) =
        (runnerInPrefill false batch spSize blockSize maxNumSeqs).slotMapping ↔
      none ∉ (batch.tokenSlots blockSize).drop maxTokens
  /-- A batch without tokens is returned as it is; the rows of the others are fragments. -/
  rows : calls = [(batch, [])] ∧ batch.inputIds = [] ∨
    ∀ c ∈ calls, List.Forall₂ batch.FragmentOf c.1.packedRows c.2
  last : ∀ j < batch.seqLens.length, 0 < batch.seqLen j → LastOnce (callMeta calls) j

/-- Lists of `n` entries, and at most `n` in the last one: the index in a list is the index in all of them modulo `n`.
-/
theorem flatMap_zipIdx_mod {α β : Type} {n : ℕ} (f : α × ℕ → β) (ls : List (List α)) (k : ℕ)
    (hfull : ∀ l ∈ ls.dropLast, l.length = n) (hle : ∀ l ∈ ls, l.length ≤ n) :
    (ls.flatMap fun l => l.zipIdx.map f) = (ls.flatten.zipIdx (k * n)).map fun x => f (x.1, x.2 % n) := by
  induction ls generalizing k with
  | nil => rfl
  | cons l ls ih =>
    have hhead : l.zipIdx.map f = (l.zipIdx (k * n)).map fun x => f (x.1, x.2 % n) := by
      refine List.ext_getElem (by simp) fun i hi _ => ?_
      have hlt : i < n := lt_of_lt_of_le (by simpa using hi) (hle l List.mem_cons_self)
      simp [Nat.mul_add_mod_of_lt hlt]
    rw [List.flatMap_cons, List.flatten_cons, List.zipIdx_append, List.map_append, ← hhead]
    congr 1
    cases ls with
    | nil => rfl
    | cons l' ls =>
      rw [hfull l (by simp), show k * n + n = (k + 1) * n by rw [Nat.add_one_mul]]
      exact ih (k + 1) (fun l hl => hfull l (by simp [hl])) fun l hl => hle l (List.mem_cons_of_mem _ hl)

/-- The two fall-backs agree where they are not used, and before the first call ends. -/
theorem map_getD_mod_eq_iff (slots : List (Option ℕ)) {n : ℕ} (hn : 0 < n) :
    (slots.zipIdx.map fun x => ((x.1.getD (x.2 % n) : ℕ) : ℤ)) = (slots.zipIdx.map fun x =>
      ((x.1.getD x.2 : ℕ) : ℤ)) ↔
      none ∉ slots.drop n := by
  rw [List.map_inj_left]
  constructor
  · intro h hmem
    obtain ⟨i, hi, hnone⟩ := List.mem_iff_getElem.1 hmem
    rw [List.getElem_drop] at hnone
    have hzip : (none, n + i) ∈ slots.zipIdx := by
      rw [List.mk_mem_zipIdx_iff_getElem?, ← hnone]
      exact List.getElem?_eq_getElem _
    have hslot := h _ hzip
    have hmod := Nat.mod_lt (n + i) hn
    simp only [Option.getD_none, Int.natCast_inj] at hslot
    omega
  · rintro h ⟨slot, i⟩ hmem
    rw [List.mk_mem_zipIdx_iff_getElem?] at hmem
    cases slot with
    | some slot => rfl
    | none =>
      have hlt : i < n := by
        by_contra hge
        refine h (List.mem_of_getElem? (i := i - n) ?_)
        rw [List.getElem?_drop, show n + (i - n) = i by omega, hmem]
      rw [Nat.mod_eq_of_lt hlt]

/-- The slots of the calls, from the slots of their rows. -/
theorem flatMap_slotMapping {calls : List Microbatch} (blockSize : ℕ) (hpacked : ∀ c ∈ calls, batch.Packs c.1)
    (hsize : ∀ c ∈ calls, c.1.inputIds.length ≤ maxTokens)
    (hfull : ∀ c ∈ calls.dropLast, c.1.inputIds.length = maxTokens) :
    (calls.flatMap fun c => c.1.slotMapping false blockSize) =
      (callRows (PackedRow.slots blockSize) calls).zipIdx.map fun x => ((x.1.getD (x.2 % maxTokens) : ℕ) : ℤ) := by
  have hlen : ∀ c ∈ calls, (c.1.tokenSlots blockSize).length = c.1.inputIds.length := by
    intro c hc
    rw [length_tokenSlots blockSize (hpacked c hc).positions, (hpacked c hc).positions, (hpacked c hc).inputIds]
  have hmod := flatMap_zipIdx_mod (n := maxTokens) (fun x : Option ℕ × ℕ => ((x.1.getD x.2 : ℕ) : ℤ))
    (calls.map fun c => c.1.tokenSlots blockSize) 0
    (by
      rw [← List.map_dropLast]
      rintro l hl
      obtain ⟨c, hc, rfl⟩ := List.mem_map.1 hl
      rw [hlen c (List.dropLast_subset _ hc), hfull c hc])
    (by
      rintro l hl
      obtain ⟨c, hc, rfl⟩ := List.mem_map.1 hl
      rw [hlen c hc]
      exact hsize c hc)
  rw [Nat.zero_mul, ← List.flatMap_def, List.flatMap_map] at hmod
  refine Eq.trans (List.flatMap_congr fun c hc => ?_) hmod
  exact slotMapping_eq_tokenSlots blockSize (hpacked c hc).positions

/-- An open microbatch without tokens is not returned and contributes nothing. -/
theorem RepackInv.result {i a : ℕ} {st : MicroState} (h : RepackInv batch maxTokens i a st)
    (hempty : st.microbatch.inputIds = []) :
    callMeta st.result = callMeta st.calls ∧ ∀ {β : Type} (e : PackedRow → List β), callRows e st.result =
      callRows e st.calls := by
  have hmeta : st.metadata = [] := by
    by_contra hne
    exact h.nonempty hne hempty
  have hrows : st.microbatch.packedRows = [] := by
    have hfragments := h.calls.fragments (st.microbatch, st.metadata)
      (List.mem_append_right _ (List.mem_singleton_self _))
    rw [hmeta] at hfragments
    exact List.forall₂_nil_right_iff.1 hfragments
  refine ⟨?_, fun e => ?_⟩
  · simp [callMeta, MicroState.calls, hmeta]
  · simp [callRows, MicroState.calls, hrows]

theorem Repacked.of_inv {i a : ℕ} {st : MicroState} {calls : List Microbatch} (hwf : batch.WellFormed)
    (hmax : 0 < maxTokens) (h : RepackInv batch maxTokens i a st) (hi : i = batch.seqLens.length)
    (ha : a = batch.rowOffset i) (hsub : ∀ c ∈ calls, c ∈ st.calls)
    (hsize : ∀ c ∈ calls, c.1.inputIds.length ≤ maxTokens) (hlast : ∀ c ∈ calls.dropLast, c ∈ st.result)
    (hmeta : callMeta calls = callMeta st.calls)
    (hrows : ∀ {β : Type} (e : PackedRow → List β), callRows e calls = callRows e st.calls) :
    Repacked batch maxTokens calls := by
  have hcalls : ∀ {β : Type} (e : PackedRow → List β), Splits batch e →
      callRows e calls = batch.packedRows.flatMap e := by
    intro β e he
    rw [hrows e, h.rows e he, ha, he.nil, List.append_nil, WireBatch.packedRows, List.flatMap_map, hi]
  have hfull : ∀ c ∈ calls.dropLast, c.1.inputIds.length = maxTokens := fun c hc => h.full c (hlast c hc)
  have hslots : ∀ blockSize, (calls.flatMap fun c => c.1.slotMapping false blockSize) =
      (batch.tokenSlots blockSize).zipIdx.map fun x => ((x.1.getD (x.2 % maxTokens) : ℕ) : ℤ) := by
    intro blockSize
    rw [flatMap_slotMapping blockSize (fun c hc => h.packed c (hsub c hc)) hsize hfull,
      hcalls _ (splits_slots batch blockSize)]
    rfl
  refine ⟨hsize, hfull, ?_, ?_, fun _ blockSize _ => hslots blockSize, fun _ blockSize _ => ?_,
    Or.inr fun c hc => h.calls.fragments c (hsub c hc), fun j hj hpos => ?_⟩
  · rw [← flatMap_packedRows_inputIds hwf.inputIds, ← hcalls _ (splits_inputIds batch)]
    exact List.flatMap_congr fun c hc => (flatMap_packedRows_inputIds (h.packed c (hsub c hc)).inputIds).symm
  · rw [← flatMap_packedRows_positions hwf.positions, ← hcalls _ (splits_positions batch)]
    exact List.flatMap_congr fun c hc => (flatMap_packedRows_positions (h.packed c (hsub c hc)).positions).symm
  · refine Iff.trans ?_ (map_getD_mod_eq_iff (batch.tokenSlots blockSize) hmax)
    rw [← slotMapping_eq_tokenSlots blockSize hwf.positions, ← hslots blockSize]
    rfl
  · rw [hmeta]
    exact h.lastOnce j hpos (Or.inl (hi ▸ hj))

/-- A batch without tokens is one call. -/
theorem repacked_self (hwf : batch.WellFormed) (hempty : batch.inputIds = []) :
    Repacked batch maxTokens [(batch, [])] := by
  have hslots : ∀ blockSize, batch.tokenSlots blockSize = [] := by
    intro blockSize
    rw [← List.length_eq_zero_iff, length_tokenSlots blockSize hwf.positions, hwf.positions, ← hwf.inputIds, hempty]
    rfl
  have hmapping : ∀ blockSize, batch.slotMapping false blockSize = [] := by
    intro blockSize
    rw [slotMapping_eq_tokenSlots blockSize hwf.positions, hslots blockSize]
    rfl
  refine ⟨fun c hc => ?_, fun c hc => absurd hc List.not_mem_nil, List.flatMap_singleton _ _,
    List.flatMap_singleton _ _,
    fun _ blockSize _ => ?_, fun _ blockSize _ => ?_, Or.inl ⟨rfl, hempty⟩, fun j hj hpos => ?_⟩
  · rw [List.mem_singleton.1 hc, hempty]
    exact Nat.zero_le _
  · rw [List.flatMap_singleton, hslots blockSize]
    exact hmapping blockSize
  · rw [List.flatMap_singleton, hslots blockSize]
    simp
  · have hend := (hwf.row_le hj).1
    rw [hempty, List.length_nil] at hend
    omega

/-- **Microbatches hold the batch**: at most `maxTokens` tokens each and all but the last exactly that many; tokens and
positions in the order of the batch, and its cache slots where the block tables have them; every row a fragment of an
original row with its data, sampled if it is the last one of a sampled row; and one last fragment for each row that has
tokens. -/
theorem repacked_prefillMicrobatches (hprefill : batch.isPrefill = true) (hwf : batch.WellFormed)
    (hmax : 1 ≤ maxTokens) : Repacked batch maxTokens (prefillMicrobatches false batch maxTokens) := by
  by_cases hnil : batch.seqLens = []
  · have hempty : batch.inputIds = [] := List.eq_nil_of_length_eq_zero (by rw [hwf.inputIds, hnil]; rfl)
    simpa [prefillMicrobatches, hnil] using repacked_self hwf hempty
  · obtain ⟨st, hst, h, hlen⟩ := packRows_rule (J := RepackInv batch maxTokens) hmax hwf
      (fun _ _ _ h hfull => h.flush hfull) (fun _ _ _ _ hi h hstart hab hb _ => h.push hwf hi hstart hab hb)
        (fun _ _ hi h => h.next hi) batch.seqLens 0
      ⟨[], batch.makeMicrobatch, []⟩ rfl (Nat.zero_le _) (RepackInv.init batch maxTokens) (Nat.zero_le _)
    rw [show batch.rowOffset 0 = 0 from rfl] at hst
    have hcalls : Repacked batch maxTokens (if st.microbatch.inputIds.isEmpty then st.result else st.calls) := by
      split_ifs with hempty
      · obtain ⟨hmeta, hrows⟩ := h.result (List.isEmpty_iff.1 hempty)
        exact .of_inv hwf hmax h rfl rfl (fun c hc => List.mem_append_left _ hc)
          (fun c hc => (h.full c hc).le) (fun c hc => List.dropLast_subset _ hc) hmeta hrows
      · refine .of_inv hwf hmax h rfl rfl (fun c hc => hc) (fun c hc => ?_) (fun c hc => ?_) rfl fun _ => rfl
        · rcases List.mem_append.1 hc with hc | hc
          · exact (h.full c hc).le
          · rw [List.mem_singleton.1 hc]
            exact hlen
        · rwa [MicroState.calls, List.dropLast_concat] at hc
    unfold prefillMicrobatches
    rw [if_neg (by simp [hprefill, Nat.ne_of_gt hmax, hnil]), hst]
    change Repacked batch maxTokens (if (if st.microbatch.inputIds.isEmpty then st.result else st.calls).isEmpty then
      [(batch, [])] else if st.microbatch.inputIds.isEmpty then st.result else st.calls)
    generalize (if st.microbatch.inputIds.isEmpty then st.result else st.calls) = calls at hcalls ⊢
    split_ifs with hnone
    · -- no row has tokens
      have hids := hcalls.inputIds
      rw [List.isEmpty_iff.1 hnone] at hids
      exact repacked_self hwf hids.symm
    · exact hcalls

/-- Three rows, one of them without tokens, and a compressed table that stops after the second. -/
def threeRows : WireBatch where
  isPrefill := true
  inputIds := [11, 12, 13, 14, 15]
  positions := [0, 1, 4, 5, 6]
  seqLens := [2, 0, 3]
  blockTables := [[3], [], [5, 9]]
  temperatures := [0, 0, 1]
  stateSlots := [0, 1, 2]
  compressedBlockTables := fun ratio => if ratio = 4 then some [[7], [8]] else none
  hisparseSlots := [0, 1, 2]
  seqIds := [100, 101, 102]
  sampleMask := [true, true, false]
  anyReturnCompletionLogprobs := false

/-- With blocks of four tokens all positions have their blocks, and the calls have the slots of the batch. -/
theorem repacked_threeRows :
    Repacked threeRows 2 (prefillMicrobatches false threeRows 2) ∧
      (prefillMicrobatches false threeRows 2).map (fun c => (c.1.inputIds, c.2)) =
        [([11, 12], [(0, true)]), ([13, 14], [(2, false)]), ([15], [(2, true)])] ∧
      ((prefillMicrobatches false threeRows 2).flatMap fun c => (runnerInPrefill false c.1 1 4 4).slotMapping) =
        (runnerInPrefill false threeRows 1 4 4).slotMapping := by
  have h := @repacked_prefillMicrobatches threeRows 2 rfl ⟨rfl, rfl, rfl, rfl⟩ (by decide)
  exact ⟨h, by decide, (h.slotMapping_eq 1 4 4).2 (by decide)⟩

/-- With blocks of one token they have not: the index of a token in its call is not its index in the batch. -/
theorem not_slotMapping_threeRows :
    threeRows.WellFormed ∧
      ((prefillMicrobatches false threeRows 2).flatMap fun c => (runnerInPrefill false c.1 1 1 4).slotMapping) =
        [3, 1, 0, 1, 0] ∧
      (runnerInPrefill false threeRows 1 1 4).slotMapping = [3, 1, 2, 3, 4] :=
  ⟨⟨rfl, rfl, rfl, rfl⟩, by decide, by decide⟩

end Contents

end NanoEngine
