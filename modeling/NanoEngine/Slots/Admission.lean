import NanoEngine.Slots.Invariant

/-!
# NanoEngine.Slots.Admission — admissions and growth take slots on the rank of the sequence

`state_slot` and `hisparse_slot` look across all ranks, but a missing slot is taken from the assigned one.  With no slot
on another rank the two agree (`ensureStateSlot_eq`), and the slot recorded is one of the rank.
-/

namespace NanoEngine

open Scheduler

namespace SlotPart

def setPool (p : SlotPart) (d : ℕ) (pool : SlotPool) : SlotKind → SlotPart
  | .state => { p with stateSlots := Function.update p.stateSlots d pool }
  | .hisparse => { p with hisparseSlots := Function.update p.hisparseSlots d pool }

theorem pools_setPool_self (p : SlotPart) (d : ℕ) (pool : SlotPool) (k : SlotKind) :
    k.pools (p.setPool d pool k) = Function.update (k.pools p) d pool := by
  cases k <;> rfl

theorem pools_setPool_of_ne (p : SlotPart) (d : ℕ) (pool : SlotPool) {k k' : SlotKind} (h : k' ≠ k) :
    k'.pools (p.setPool d pool k) = k'.pools p := by
  cases k <;> cases k' <;> first | rfl | exact absurd rfl h

theorem seqAssignment_setPool (p : SlotPart) (d : ℕ) (pool : SlotPool) (k : SlotKind) :
    (p.setPool d pool k).seqAssignment = p.seqAssignment := by
  cases k <;> rfl

theorem compressedPools_setPool (p : SlotPart) (d : ℕ) (pool : SlotPool) (k : SlotKind) :
    (p.setPool d pool k).compressedPools = p.compressedPools := by
  cases k <;> rfl

/-- A slot is taken from one pool. -/
theorem PoolsSound.ensure {config : SchedulerConfig} {p : SlotPart} (h : p.PoolsSound config)
    (k : SlotKind) (d seqId : ℕ) :
    (p.setPool d ((k.pools p d).ensure seqId).2 k).PoolsSound config := by
  refine ⟨fun k' d' => ?_, fun k' d' => ?_, ?_⟩
  · by_cases hk' : k' = k
    · subst hk'
      rw [pools_setPool_self, Function.update_apply]
      split
      case isTrue => exact (h.slots k' d).ensure seqId
      case isFalse => exact h.slots k' d'
    · rw [pools_setPool_of_ne _ _ _ hk']
      exact h.slots k' d'
  · by_cases hk' : k' = k
    · subst hk'
      rw [pools_setPool_self, Function.update_apply]
      split
      case isTrue hd' =>
        rw [SlotPool.ensure_numSlots, hd']
        exact h.numSlots k' d
      case isFalse => exact h.numSlots k' d'
    · rw [pools_setPool_of_ne _ _ _ hk']
      exact h.numSlots k' d'
  · rw [compressedPools_setPool]
    exact h.pages

end SlotPart

/-- A lookup across the ranks finds a slot of the rank that has one. -/
theorem findSome_slot {pools : ℕ → SlotPool} {dp id d slot : ℕ}
    (honly : ∀ d' < dp, d' ≠ d → (pools d').seqSlots id = none)
    (h : (List.range dp).findSome? (fun d => (pools d).seqSlots id) = some slot) :
      (pools d).seqSlots id = some slot := by
  obtain ⟨d', hd', hslot⟩ := List.exists_of_findSome?_eq_some h
  by_cases hne : d' = d
  · exact hne ▸ hslot
  · rw [honly d' (List.mem_range.1 hd') hne] at hslot
    cases hslot

theorem SlotPool.ensure_of_some {p : SlotPool} {id slot : ℕ} (h : p.seqSlots id = some slot) :
    p.ensure id = (some slot, p) := by
  unfold SlotPool.ensure
  rw [h]

/-- A pool without a slot to hand out stays as it is. -/
theorem SlotPool.ensure_none {p : SlotPool} {id : ℕ} (h : (p.ensure id).1 = none) : (p.ensure id).2 = p := by
  unfold SlotPool.ensure at h ⊢
  split at h
  case h_1 => cases h
  case h_2 =>
    split at h
    case h_1 => rfl
    case h_2 => cases h

/-- A slot handed out is the sequence's, the other sequences keep theirs. -/
theorem SlotPool.ensure_some {p : SlotPool} {id slot : ℕ} (h : (p.ensure id).1 = some slot) :
    (p.ensure id).2.seqSlots = Function.update p.seqSlots id (some slot) := by
  unfold SlotPool.ensure at h ⊢
  split at h
  case h_1 n hn =>
    cases h
    rw [← hn, Function.update_eq_self]
  case h_2 =>
    split at h
    case h_1 => cases h
    case h_2 n free _ =>
      cases h
      rfl

theorem CacheState.ensureStateSlot_eq {c : CacheState} {dp id d g : ℕ} (hassign : c.seqAssignment id = some (d, g))
    (honly : ∀ d' < dp, d' ≠ d → (c.stateSlots d').seqSlots id = none) :
    c.ensureStateSlot dp id = (((c.stateSlots d).ensure id).1,
      { c with stateSlots := Function.update c.stateSlots d ((c.stateSlots d).ensure id).2 }) := by
  unfold ensureStateSlot
  split
  case h_1 slot hslot =>
    have hd := findSome_slot honly hslot
    rw [SlotPool.ensure_of_some hd, Function.update_eq_self]
  case h_2 => rw [hassign]

theorem CacheState.ensureHisparseSlot_eq {c : CacheState} {dp id d g : ℕ} (hassign : c.seqAssignment id = some (d, g))
    (honly : ∀ d' < dp, d' ≠ d → (c.hisparseSlots d').seqSlots id = none) :
    c.ensureHisparseSlot dp id = (((c.hisparseSlots d).ensure id).1,
      { c with hisparseSlots := Function.update c.hisparseSlots d ((c.hisparseSlots d).ensure id).2 }) := by
  unfold ensureHisparseSlot
  split
  case h_1 slot hslot =>
    have hd := findSome_slot honly hslot
    rw [SlotPool.ensure_of_some hd, Function.update_eq_self]
  case h_2 => rw [hassign]

theorem CompressedPool.takePages_ratio (id n : ℕ) (p : CompressedPool) : (takePages id n p).2.ratio = p.ratio := by
  induction n generalizing p with
  | zero => rfl
  | succ n ih =>
    unfold takePages
    split
    case h_1 => rfl
    case h_2 => exact ih _

theorem CompressedPool.ensurePages_ratio (p : CompressedPool) (id : ℕ) (neededTokens : ℤ) :
    (p.ensurePages id neededTokens).2.ratio = p.ratio := by
  have h := takePages_ratio id (p.pagesNeededForTokens neededTokens - ((p.seqPages id).getD []).length)
    { p with seqPages := Function.update p.seqPages id (some ((p.seqPages id).getD [])) }
  unfold ensurePages
  dsimp only
  split
  case h_1 p' heq =>
    rw [heq] at h
    exact h
  case h_2 p' heq =>
    rw [heq] at h
    exact h

/-- `ensure_compressed_pages` keeps the partition of every ratio, also when it stops in the middle. -/
theorem CacheState.ensureCompressedLoop_pages (id : ℕ) (neededTokens : ℤ) {pools₀ pools : List CompressedPool}
    (h : List.Forall₂ (fun pool₀ pool => pool.ratio = pool₀.ratio ∧ pool.Pages pool₀.freePages.length)
      pools₀ pools) :
    List.Forall₂ (fun pool₀ pool => pool.ratio = pool₀.ratio ∧ pool.Pages pool₀.freePages.length) pools₀
      (ensureCompressedLoop id neededTokens pools).2 := by
  induction h with
  | nil => exact .nil
  | @cons pool₀ pool pools₀ pools hpool hrest ih =>
    have hpages := hpool.2.ensurePages id neededTokens
    have hratio := (pool.ensurePages_ratio id neededTokens).trans hpool.1
    rw [ensureCompressedLoop]
    split
    case h_1 e p heq =>
      rw [heq] at hpages hratio
      exact .cons ⟨hratio, hpages⟩ hrest
    case h_2 pages p heq =>
      rw [heq] at hpages hratio
      split
      case h_1 e l hloop =>
        rw [hloop] at ih
        exact .cons ⟨hratio, hpages⟩ ih
      case h_2 tables l hloop =>
        rw [hloop] at ih
        exact .cons ⟨hratio, hpages⟩ ih

/-- What recording a slot of kind `k` does to a sequence. -/
structure Sequence.RecordsSlot (k : SlotKind) (slot : ℕ) (a b : Sequence) : Prop where
  recorded : k.recorded b = slot
  others : ∀ k', k' ≠ k → SlotKind.recorded k' b = SlotKind.recorded k' a
  unfinished : b.status = .finished → a.status = .finished

namespace Scheduler

/-- What asking for a slot of kind `k` on rank `d` can do. -/
inductive EnsuresSlot (k : SlotKind) (id d : ℕ) (s : Scheduler) : Except PyErr Unit → Scheduler → Prop
  | skipped (htaken : k.taken s.config = false) : EnsuresSlot k id d s (.ok ()) s
  | failed {e : PyErr} {s' : Scheduler} (htaken : k.taken s.config = true)
    (hnone : ((k.pools s.cache.slotPart d).ensure id).1 = none) (hsame : SlotSame s s') :
      EnsuresSlot k id d s (.error e) s'
  | ensured {slot : ℕ} {s' : Scheduler} (hslot : ((k.pools s.cache.slotPart d).ensure id).1 = some slot)
    (hconfig : s'.config = s.config)
    (hpart : s'.cache.slotPart = s.cache.slotPart.setPool d ((k.pools s.cache.slotPart d).ensure id).2 k)
    (htable : OthersKept id s s') (hmissing : s.seqTable id = none → s'.seqTable id = none)
    (hentry : ∀ a, s.seqTable id = some a → ∃ b, s'.seqTable id = some b ∧ a.RecordsSlot k slot b) :
    EnsuresSlot k id d s (.ok ()) s'

theorem cacheEnsureStateSlot_cases {s : Scheduler} {id d g : ℕ} (hassign : s.cache.seqAssignment id = some (d, g))
    (honly : ∀ d' < s.dp, d' ≠ d → (s.cache.stateSlots d').seqSlots id = none) :
    EnsuresSlot .state id d s (s.cacheEnsureStateSlot id).1 (s.cacheEnsureStateSlot id).2 := by
  unfold cacheEnsureStateSlot
  split
  case isFalse h => exact .skipped (by simpa [SlotKind.taken] using h)
  case isTrue htaken =>
    rw [CacheState.ensureStateSlot_eq hassign honly]
    cases hslot : ((s.cache.stateSlots d).ensure id).1 with
    | none =>
      refine .failed htaken hslot (.setCache s ?_)
      rw [SlotPool.ensure_none hslot]
      simp [CacheState.slotPart]
    | some slot =>
      refine EnsuresSlot.ensured hslot rfl rfl (.setCache_updateSeq s _ id _) (fun hn => ?_) fun a ha => ?_
      · simp [updateSeq, setCache, hn]
      · refine ⟨{ a with activeStateSlot := slot },
          by simp [updateSeq, setCache, ha], rfl, fun k' hk' => ?_, fun hf => hf⟩
        cases k' with
        | state => exact absurd rfl hk'
        | hisparse => rfl

theorem cacheEnsureHisparseSlot_cases {s : Scheduler} {id d g : ℕ} (hassign : s.cache.seqAssignment id = some (d, g))
    (honly : ∀ d' < s.dp, d' ≠ d → (s.cache.hisparseSlots d').seqSlots id = none) :
    EnsuresSlot .hisparse id d s (s.cacheEnsureHisparseSlot id).1 (s.cacheEnsureHisparseSlot id).2 := by
  unfold cacheEnsureHisparseSlot
  split
  case isFalse h => exact .skipped (by simpa [SlotKind.taken] using h)
  case isTrue htaken =>
    rw [CacheState.ensureHisparseSlot_eq hassign honly]
    cases hslot : ((s.cache.hisparseSlots d).ensure id).1 with
    | none =>
      refine .failed htaken hslot (.setCache s ?_)
      rw [SlotPool.ensure_none hslot]
      simp [CacheState.slotPart]
    | some slot =>
      refine EnsuresSlot.ensured hslot rfl rfl (.setCache_updateSeq s _ id _) (fun hn => ?_) fun a ha => ?_
      · simp [updateSeq, setCache, hn]
      · refine ⟨{ a with activeHisparseSlot := slot }, by simp [updateSeq, setCache, ha], rfl, fun k' hk' => ?_,
          fun hf => hf⟩
        cases k' with
        | state => rfl
        | hisparse => exact absurd rfl hk'

/-- The sequence, if it has a rank, holds the slot it records in the pool of that rank. -/
def HomeOf (k : SlotKind) (s : Scheduler) (id : ℕ) : Prop :=
  ∀ d g seq, s.cache.slotPart.seqAssignment id = some (d, g) → s.seqTable id = some seq →
    ∃ n : ℕ, (k.pools s.cache.slotPart d).seqSlots id = some n ∧ k.recorded seq = n

theorem HomeOf.kept {k : SlotKind} {s s' : Scheduler} {id : ℕ} (h : HomeOf k s id) (hkept : SlotKept s s') :
    HomeOf k s' id := by
  intro d g seq hassign hseq
  rw [hkept.seqAssignment] at hassign
  rw [hkept.pools]
  obtain ⟨a, ha, hrec⟩ := (hkept.table.othersKept (id + 1)).recorded (by omega) hseq k
  obtain ⟨n, hn, hslot⟩ := h d g a hassign ha
  exact ⟨n, hn, hrec.trans hslot⟩

/-- Taking pages leaves the slots alone. -/
theorem cacheEnsureCompressedPages_kept (s : Scheduler) (id : ℕ) (neededTokens : ℤ) :
    SlotKept s (s.cacheEnsureCompressedPages id neededTokens).2 := by
  have hcache : ∀ pools, SlotKept s (s.setCache { s.cache with compressedPools := pools }) := fun pools =>
    ⟨rfl, fun k => by cases k <;> rfl, rfl, fun _ hn => hn, fun _ a ha => ⟨a, ha, .refl a⟩⟩
  unfold cacheEnsureCompressedPages CacheState.ensureCompressedPages
  split
  case isTrue => exact (SlotSame.refl s).kept
  case isFalse =>
    split
    case h_1 e c heq =>
      obtain ⟨-, rfl⟩ := Prod.mk.inj heq
      exact hcache _
    case h_2 tables c heq =>
      obtain ⟨-, rfl⟩ := Prod.mk.inj heq
      have h := hcache (CacheState.ensureCompressedLoop id neededTokens s.cache.compressedPools).2
      have hupdate := SlotSame.updateSeq (s.setCache { s.cache with
        compressedPools := (CacheState.ensureCompressedLoop id neededTokens s.cache.compressedPools).2 }) id
        (fun seq => { seq with activeCompressedBlockTables := tables }) fun _ => ⟨rfl, rfl, fun hf => hf⟩
      exact ⟨hupdate.config.trans h.config, fun k => (hupdate.kept.pools k).trans (h.pools k),
        hupdate.kept.seqAssignment.trans h.seqAssignment,
        h.table.trans (fun _ _ _ => Sequence.KeepsSlots.trans) hupdate.table⟩

theorem cacheEnsureCompressedPages_pools (s : Scheduler) (id : ℕ) (neededTokens : ℤ) :
    (s.cacheEnsureCompressedPages id neededTokens).2.cache.compressedPools = s.cache.compressedPools ∨
    (s.cacheEnsureCompressedPages id neededTokens).2.cache.compressedPools =
      (CacheState.ensureCompressedLoop id neededTokens s.cache.compressedPools).2 := by
  unfold cacheEnsureCompressedPages CacheState.ensureCompressedPages
  split
  case isTrue => exact .inl rfl
  case isFalse =>
    right
    split
    case h_1 e c heq =>
      obtain ⟨-, rfl⟩ := Prod.mk.inj heq
      rfl
    case h_2 tables c heq =>
      obtain ⟨-, rfl⟩ := Prod.mk.inj heq
      rfl

theorem cacheEnsureStateSlot_others {s : Scheduler} {seqId : ℕ} {r : Except PyErr Unit} {s' : Scheduler}
    (h : s.cacheEnsureStateSlot seqId = (r, s')) :
    s'.config = s.config ∧ s'.cache.hisparseSlots = s.cache.hisparseSlots ∧
      s'.cache.compressedPools = s.cache.compressedPools ∧ s'.cache.seqAssignment = s.cache.seqAssignment := by
  have hens : ∀ {o c}, s.cache.ensureStateSlot s.dp seqId = (o, c) → c.hisparseSlots = s.cache.hisparseSlots ∧
      c.compressedPools = s.cache.compressedPools ∧ c.seqAssignment = s.cache.seqAssignment := by
    intro o c heq
    unfold CacheState.ensureStateSlot at heq
    split at heq
    · cases heq
      exact ⟨rfl, rfl, rfl⟩
    · split at heq <;> cases heq <;> exact ⟨rfl, rfl, rfl⟩
  unfold cacheEnsureStateSlot at h
  split at h
  case isFalse =>
    cases h
    exact ⟨rfl, rfl, rfl, rfl⟩
  case isTrue => split at h <;> rename_i heq <;> cases h <;> exact ⟨rfl, hens heq⟩

theorem cacheEnsureHisparseSlot_others {s : Scheduler} {seqId : ℕ} {r : Except PyErr Unit} {s' : Scheduler}
    (h : s.cacheEnsureHisparseSlot seqId = (r, s')) :
    s'.cache.compressedPools = s.cache.compressedPools ∧ s'.cache.seqAssignment = s.cache.seqAssignment := by
  have hens : ∀ {o c}, s.cache.ensureHisparseSlot s.dp seqId = (o, c) →
      c.compressedPools = s.cache.compressedPools ∧ c.seqAssignment = s.cache.seqAssignment := by
    intro o c heq
    unfold CacheState.ensureHisparseSlot at heq
    split at heq
    · cases heq
      exact ⟨rfl, rfl⟩
    · split at heq <;> cases heq <;> exact ⟨rfl, rfl⟩
  unfold cacheEnsureHisparseSlot at h
  split at h
  case isFalse =>
    cases h
    exact ⟨rfl, rfl⟩
  case isTrue => split at h <;> rename_i heq <;> cases h <;> exact hens heq

/-- Slots and pages do not move a sequence to another rank. -/
theorem cacheEnsureSlotsAndPages_seqAssignment (s : Scheduler) (seqId : ℕ) (neededTokens : ℤ) :
    (s.cacheEnsureSlotsAndPages seqId neededTokens).2.cache.seqAssignment = s.cache.seqAssignment := by
  unfold cacheEnsureSlotsAndPages
  split
  case h_1 e s₁ heq => exact (cacheEnsureStateSlot_others heq).2.2.2
  case h_2 s₁ heq =>
    have h₁ := (cacheEnsureStateSlot_others heq).2.2.2
    split
    case h_1 e s₂ heq₂ => exact (cacheEnsureHisparseSlot_others heq₂).2.trans h₁
    case h_2 s₂ heq₂ =>
      have h₂ := (cacheEnsureHisparseSlot_others heq₂).2.trans h₁
      exact (cacheEnsureCompressedPages_kept s₂ seqId neededTokens).seqAssignment.trans h₂

end Scheduler

namespace SlotInv

variable {config : SchedulerConfig} {L : Finset ℕ} {s s' : Scheduler} {id d g : ℕ}

/-- A slot is taken on the rank of the sequence: its home is there, and the other sequences keep theirs. -/
theorem ensuresSlot {k : SlotKind} {r : Except PyErr Unit} (h : SlotInv config L (some id) s)
    (hassign : s.cache.slotPart.seqAssignment id = some (d, g)) (hens : EnsuresSlot k id d s r s')
    (hcan : k.taken config = true → ((k.pools s.cache.slotPart d).ensure id).1 ≠ none) :
    SlotInv config L (some id) s' ∧ r = .ok () ∧
      s'.cache.slotPart.seqAssignment = s.cache.slotPart.seqAssignment ∧
      (k.taken config = true → HomeOf k s' id) ∧
      ∀ k', k' ≠ k → SlotKind.pools k' s'.cache.slotPart = SlotKind.pools k' s.cache.slotPart ∧
        (HomeOf k' s id → HomeOf k' s' id) := by
  cases hens with
  | skipped htaken =>
    rw [h.config_eq] at htaken
    refine ⟨h, rfl, rfl, fun ht => ?_, fun _ _ => ⟨rfl, fun hh => hh⟩⟩
    rw [htaken] at ht
    cases ht
  | failed htaken hnone => exact absurd hnone (hcan (h.config_eq ▸ htaken))
  | @ensured slot _ hslot hconfig hpart htable hmissing hentry =>
    have hself : k.pools s'.cache.slotPart = Function.update (k.pools s.cache.slotPart) d
        ((k.pools s.cache.slotPart d).ensure id).2 := by rw [hpart, SlotPart.pools_setPool_self]
    have hothers : ∀ k', k' ≠ k → SlotKind.pools k' s'.cache.slotPart = SlotKind.pools k' s.cache.slotPart := by
      intro k' hk'
      rw [hpart, SlotPart.pools_setPool_of_ne _ _ _ hk']
    have hranks : s'.cache.slotPart.seqAssignment = s.cache.slotPart.seqAssignment := by
      rw [hpart, SlotPart.seqAssignment_setPool]
    have hslots := SlotPool.ensure_some hslot
    -- the slots of the other sequences, and those on other ranks, are as before
    have hkeep : ∀ k' d' id', id' ≠ id ∨ d' ≠ d →
        (SlotKind.pools k' s'.cache.slotPart d').seqSlots id' =
          (SlotKind.pools k' s.cache.slotPart d').seqSlots id' := by
      intro k' d' id' hor
      by_cases hk' : k' = k
      · subst hk'
        rw [hself]
        by_cases hd' : d' = d
        · subst hd'
          rw [Function.update_self, hslots, Function.update_of_ne (hor.resolve_right (not_not.2 rfl))]
        · rw [Function.update_of_ne hd']
      · rw [hothers k' hk']
    refine ⟨⟨hconfig.trans h.config_eq, ?_, ?_, ?_, ?_⟩, rfl, hranks, ?_,
      fun k' hk' => ⟨hothers k' hk', ?_⟩⟩
    · rw [hpart]
      exact h.sound.ensure k d id
    · intro k' hk' id' d' g' seq hex hassign' hseq
      have hne : id' ≠ id := by simpa using hex
      rw [hranks] at hassign'
      obtain ⟨a, ha, hrec⟩ := htable.recorded hne hseq k'
      obtain ⟨n, hn, hn'⟩ := h.home k' hk' id' d' g' a hex hassign' ha
      exact ⟨n, (hkeep k' d' id' (.inl hne)).trans hn, hrec.trans hn'⟩
    · intro k' id' d' g' hassign' d'' hd'' hne
      rw [hranks] at hassign'
      by_cases hid : id' = id
      · subst hid
        rw [hassign] at hassign'
        cases hassign'
        rw [hkeep k' d'' id' (.inr hne)]
        exact h.only k' id' d g hassign d'' hd'' hne
      · rw [hkeep k' d'' id' (.inl hid)]
        exact h.only k' id' d' g' hassign' d'' hd'' hne
    · intro id' hne
      rw [hranks] at hne
      obtain ⟨hL, hunf⟩ := h.assigned id' hne
      refine ⟨hL, ?_⟩
      by_cases hid : id' = id
      · subst hid
        obtain ⟨a, ha, hstatus⟩ := exists_of_unfinished hunf
        obtain ⟨b, hb, hab⟩ := hentry a ha
        unfold unfinished
        rw [hb, Option.map_some, Option.getD_some]
        exact decide_eq_true fun hf => hstatus (hab.unfinished hf)
      · exact htable.unfinished hid hunf
    · intro _ d' g' seq hassign' hseq
      rw [hranks, hassign] at hassign'
      cases hassign'
      refine ⟨slot, ?_, ?_⟩
      · rw [hself, Function.update_self, hslots, Function.update_self]
      · cases ha : s.seqTable id with
        | none =>
          rw [hmissing ha] at hseq
          cases hseq
        | some a =>
          obtain ⟨b, hb, hab⟩ := hentry a ha
          rw [hb] at hseq
          cases hseq
          exact hab.recorded
    · intro hhome d' g' seq hassign' hseq
      rw [hranks] at hassign'
      cases ha : s.seqTable id with
      | none =>
        rw [hmissing ha] at hseq
        cases hseq
      | some a =>
        obtain ⟨b, hb, hab⟩ := hentry a ha
        rw [hb] at hseq
        cases hseq
        obtain ⟨n, hn, hn'⟩ := hhome d' g' a hassign' ha
        exact ⟨n, by rw [hothers k' hk', hn], (hab.others k' hk').trans hn'⟩

theorem ensureCompressedPages {ex : Option ℕ} (h : SlotInv config L ex s) (id : ℕ) (neededTokens : ℤ) :
    SlotInv config L ex (s.cacheEnsureCompressedPages id neededTokens).2 := by
  have hkept := s.cacheEnsureCompressedPages_kept id neededTokens
  refine h.kept hkept ⟨fun k d => ?_, fun k d => ?_, ?_⟩
  · rw [hkept.pools]
    exact h.sound.slots k d
  · rw [hkept.pools]
    exact h.sound.numSlots k d
  · rcases s.cacheEnsureCompressedPages_pools id neededTokens with heq | heq
    · show List.Forall₂ _ _ (s.cacheEnsureCompressedPages id neededTokens).2.cache.compressedPools
      rw [heq]
      exact h.sound.pages
    · show List.Forall₂ _ _ (s.cacheEnsureCompressedPages id neededTokens).2.cache.compressedPools
      rw [heq]
      exact CacheState.ensureCompressedLoop_pages id neededTokens h.sound.pages

/-- **The reservations after the KV blocks settle the sequence on its rank**, also when the pages run out. -/
theorem ensureSlotsAndPages (h : SlotInv config L (some id) s)
    (hassign : s.cache.slotPart.seqAssignment id = some (d, g))
    (hcan : ∀ k : SlotKind, k.taken config = true → ((k.pools s.cache.slotPart d).ensure id).1 ≠ none)
    (neededTokens : ℤ) :
    SlotInv config L none (s.cacheEnsureSlotsAndPages id neededTokens).2 := by
  have hdp : s.dp = config.dp := congrArg SchedulerConfig.dp h.config_eq
  have hstate := cacheEnsureStateSlot_cases hassign fun d' hd' hne => h.only .state id d g hassign d' (hdp ▸ hd') hne
  obtain ⟨h₁, hok₁, hranks₁, hhome₁, hothers₁⟩ := h.ensuresSlot hassign hstate (hcan .state)
  generalize hr₁ : s.cacheEnsureStateSlot id = r₁ at h₁ hok₁ hranks₁ hhome₁ hothers₁ hstate
  obtain ⟨r₁, s₁⟩ := r₁
  dsimp only at h₁ hok₁ hranks₁ hhome₁ hothers₁
  cases hok₁
  have hassign₁ : s₁.cache.slotPart.seqAssignment id = some (d, g) := by rw [hranks₁, hassign]
  have hdp₁ : s₁.dp = config.dp := congrArg SchedulerConfig.dp h₁.config_eq
  have hhisparse := cacheEnsureHisparseSlot_cases hassign₁ fun d' hd' hne =>
    h₁.only .hisparse id d g hassign₁ d' (hdp₁ ▸ hd') hne
  have hpools₁ := (hothers₁ .hisparse (by simp)).1
  obtain ⟨h₂, hok₂, hranks₂, hhome₂, hothers₂⟩ :=
    h₁.ensuresSlot hassign₁ hhisparse (fun ht => by rw [hpools₁]; exact hcan .hisparse ht)
  generalize hr₂ : s₁.cacheEnsureHisparseSlot id = r₂ at h₂ hok₂ hranks₂ hhome₂ hothers₂ hhisparse
  obtain ⟨r₂, s₂⟩ := r₂
  dsimp only at h₂ hok₂ hranks₂ hhome₂ hothers₂
  cases hok₂
  unfold cacheEnsureSlotsAndPages
  rw [hr₁]
  dsimp only
  rw [hr₂]
  dsimp only
  refine (h₂.ensureCompressedPages id neededTokens).settle fun k hk => ?_
  have hkept := s₂.cacheEnsureCompressedPages_kept id neededTokens
  cases k with
  | state => exact ((hothers₂ .state (by simp)).2 (hhome₁ hk)).kept hkept
  | hisparse => exact (hhome₂ hk).kept hkept

end SlotInv

end NanoEngine
