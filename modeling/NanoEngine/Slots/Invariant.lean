import NanoEngine.Slots.Frame

/-!
# NanoEngine.Slots.Invariant — every sequence with a rank holds its slots there

* `SlotKind`: state slots and HiSparse slots, which the source treats alike.
* `SlotInv`: the pools are sound; a sequence with a rank holds the slot it records in the pool of that rank and no slot
  of another rank.  The sequence `ex` is in the middle of an admission: it has a rank, its slots follow.
-/

namespace NanoEngine

open Scheduler

/-- The two kinds of per-sequence slots. -/
inductive SlotKind
  | state
  | hisparse

namespace SlotKind

def pools : SlotKind → SlotPart → ℕ → SlotPool
  | state, p => p.stateSlots
  | hisparse, p => p.hisparseSlots

def recorded : SlotKind → Sequence → ℤ
  | state, seq => seq.activeStateSlot
  | hisparse, seq => seq.activeHisparseSlot

/-- The configuration takes slots of this kind. -/
def taken : SlotKind → SchedulerConfig → Bool
  | state, config => config.needsMtpHandoff || config.cachePlan.hasState
  | hisparse, config => config.cachePlan.hisparse

end SlotKind

namespace SlotPart

def assign (p : SlotPart) (seqId dpIdx groupId : ℕ) : SlotPart :=
  { p with seqAssignment := Function.update p.seqAssignment seqId (some (dpIdx, groupId)) }

def unassign (p : SlotPart) (seqId : ℕ) : SlotPart :=
  { p with seqAssignment := Function.update p.seqAssignment seqId none }

/-- What `release_seq` does to slots, pages and ranks. -/
def release (p : SlotPart) (seqId : ℕ) : SlotPart where
  stateSlots d := (p.stateSlots d).remove seqId
  hisparseSlots d := (p.hisparseSlots d).remove seqId
  compressedPools := p.compressedPools.map (fun pool => pool.removeSeq seqId)
  seqAssignment := Function.update p.seqAssignment seqId none

@[simp] theorem pools_assign (k : SlotKind) (p : SlotPart) (seqId dpIdx groupId : ℕ) :
    k.pools (p.assign seqId dpIdx groupId) = k.pools p := by
  cases k <;> rfl

@[simp] theorem pools_unassign (k : SlotKind) (p : SlotPart) (seqId : ℕ) :
    k.pools (p.unassign seqId) = k.pools p := by
  cases k <;> rfl

@[simp] theorem pools_release (k : SlotKind) (p : SlotPart) (seqId d : ℕ) :
    k.pools (p.release seqId) d = (k.pools p d).remove seqId := by
  cases k <;> rfl

/-- The pools of slots and pages are in order, with the sizes that the configuration gives them. -/
structure PoolsSound (config : SchedulerConfig) (p : SlotPart) : Prop where
  slots : ∀ k d, (SlotKind.pools k p d).Sound
  numSlots : ∀ k d, (SlotKind.pools k p d).numSlots = (SlotKind.pools k (CacheState.new config).slotPart d).numSlots
  pages : List.Forall₂ (fun pool₀ pool => pool.ratio = pool₀.ratio ∧ pool.Pages pool₀.freePages.length)
    (CacheState.newCompressedPools config.cachePlan) p.compressedPools

namespace PoolsSound

variable {config : SchedulerConfig} {p : SlotPart}

theorem assign (h : p.PoolsSound config) (seqId dpIdx groupId : ℕ) :
    (p.assign seqId dpIdx groupId).PoolsSound config :=
  ⟨fun k d => by simpa using h.slots k d, fun k d => by simpa using h.numSlots k d, h.pages⟩

theorem unassign (h : p.PoolsSound config) (seqId : ℕ) : (p.unassign seqId).PoolsSound config :=
  ⟨fun k d => by simpa using h.slots k d, fun k d => by simpa using h.numSlots k d, h.pages⟩

theorem release (h : p.PoolsSound config) (seqId : ℕ) : (p.release seqId).PoolsSound config := by
  refine ⟨fun k d => ?_, fun k d => ?_, ?_⟩
  · rw [pools_release]
    exact (h.slots k d).remove seqId
  · rw [pools_release, SlotPool.remove_numSlots]
    exact h.numSlots k d
  · refine List.forall₂_map_right_iff.2 (h.pages.imp fun pool₀ pool hpool => ⟨?_, hpool.2.removeSeq seqId⟩)
    rw [← hpool.1]
    unfold CompressedPool.removeSeq
    split <;> rfl

end PoolsSound

end SlotPart

theorem CacheState.releaseSeq_slotPart (c : CacheState) (seqId group : ℕ) :
    (c.releaseSeq seqId group).slotPart = c.slotPart.release seqId := by
  unfold releaseSeq
  cases hpending : c.pendingHostSwaps seqId with
  | none =>
    cases hassign : c.seqAssignment seqId with
    | none => simp [hassign, slotPart, SlotPart.release]
    | some a => simp [hassign, slotPart, SlotPart.release, setHbmPool]
  | some pending =>
    cases hassign : c.seqAssignment seqId with
    | none => simp [hassign, slotPart, SlotPart.release, setHostPool]
    | some a => simp [hassign, slotPart, SlotPart.release, setHostPool, setHbmPool]

structure SlotInv (config : SchedulerConfig) (L : Finset ℕ) (ex : Option ℕ) (s : Scheduler) : Prop where
  config_eq : s.config = config
  sound : s.cache.slotPart.PoolsSound config
  home : ∀ k : SlotKind, k.taken config = true → ∀ id d g seq, some id ≠ ex →
    s.cache.slotPart.seqAssignment id = some (d, g) → s.seqTable id = some seq →
      ∃ n : ℕ, (k.pools s.cache.slotPart d).seqSlots id = some n ∧ k.recorded seq = n
  only : ∀ (k : SlotKind) id d g, s.cache.slotPart.seqAssignment id = some (d, g) →
    ∀ d' < config.dp, d' ≠ d → (k.pools s.cache.slotPart d').seqSlots id = none
  assigned : ∀ id, s.cache.slotPart.seqAssignment id ≠ none → id ∈ L ∧ s.unfinished id = true

theorem Sequence.KeepsSlots.recorded {a b : Sequence} (h : a.KeepsSlots b) (k : SlotKind) :
    k.recorded b = k.recorded a := by
  cases k with
  | state => exact h.activeStateSlot
  | hisparse => exact h.activeHisparseSlot

/-- The other sequences are known as before, with the slots they record. -/
structure Scheduler.OthersKept (seqId : ℕ) (s s' : Scheduler) : Prop where
  missing : ∀ id, id ≠ seqId → s.seqTable id = none → s'.seqTable id = none
  entry : ∀ id, id ≠ seqId → ∀ a, s.seqTable id = some a → ∃ b, s'.seqTable id = some b ∧ a.KeepsSlots b

theorem Scheduler.OthersKept.of_others {seqId : ℕ} {s s' : Scheduler}
    (h : ∀ id, id ≠ seqId → s'.seqTable id = s.seqTable id) : OthersKept seqId s s' :=
  ⟨fun id hid hn => (h id hid).trans hn, fun id hid a ha => ⟨a, (h id hid).trans ha, .refl a⟩⟩

theorem Scheduler.OthersKept.setCache_updateSeq (s : Scheduler) (c : CacheState) (seqId : ℕ)
    (f : Sequence → Sequence) :
    OthersKept seqId s ((s.setCache c).updateSeq seqId f) :=
  .of_others fun _ hid => Function.update_of_ne hid _ _

theorem Scheduler.TableRel.othersKept {s s' : Scheduler} (h : TableRel Sequence.KeepsSlots s s') (seqId : ℕ) :
    OthersKept seqId s s' :=
  ⟨fun id _ => h.missing id, fun id _ => h.entry id⟩

theorem Scheduler.OthersKept.unfinished {seqId id : ℕ} {s s' : Scheduler}
    (h : OthersKept seqId s s') (hid : id ≠ seqId)
    (hs : s.unfinished id = true) : s'.unfinished id = true := by
  obtain ⟨a, ha, hstatus⟩ := exists_of_unfinished hs
  obtain ⟨b, hb, hab⟩ := h.entry id hid a ha
  unfold Scheduler.unfinished
  rw [hb, Option.map_some, Option.getD_some]
  exact decide_eq_true fun hf => hstatus (hab.unfinished hf)

/-- An entry of the new table comes from one of the old table. -/
theorem Scheduler.OthersKept.recorded {seqId id : ℕ} {s s' : Scheduler}
    (h : OthersKept seqId s s') (hid : id ≠ seqId)
    {b : Sequence} (hb : s'.seqTable id = some b) (k : SlotKind) :
    ∃ a, s.seqTable id = some a ∧ k.recorded b = k.recorded a := by
  cases ha : s.seqTable id with
  | none =>
    rw [h.missing id hid ha] at hb
    cases hb
  | some a =>
    obtain ⟨b', hb', hab⟩ := h.entry id hid a ha
    rw [hb'] at hb
    cases hb
    exact ⟨a, rfl, hab.recorded k⟩

/-- Slots and ranks stay; the pages may change. -/
structure Scheduler.SlotKept (s s' : Scheduler) : Prop where
  config : s'.config = s.config
  pools : ∀ k : SlotKind, k.pools s'.cache.slotPart = k.pools s.cache.slotPart
  seqAssignment : s'.cache.slotPart.seqAssignment = s.cache.slotPart.seqAssignment
  table : TableRel Sequence.KeepsSlots s s'

theorem Scheduler.SlotSame.kept {s s' : Scheduler} (h : SlotSame s s') : SlotKept s s' :=
  ⟨h.config, fun _ => by rw [h.slotPart], by rw [h.slotPart], h.table⟩

namespace SlotInv

variable {config : SchedulerConfig} {L : Finset ℕ} {ex : Option ℕ} {s s' : Scheduler}

/-- The rank of a sequence is taken away: nothing is asked of it any more. -/
theorem unassign {seqId : ℕ} (h : SlotInv config L (some seqId) s) (hconfig : s'.config = s.config)
    (hpart : s'.cache.slotPart = s.cache.slotPart.unassign seqId) (htable : OthersKept seqId s s') :
    SlotInv config L none s' := by
  have hne : ∀ {id x}, s'.cache.slotPart.seqAssignment id = some x → id ≠ seqId ∧
      s.cache.slotPart.seqAssignment id = some x := by
    intro id x hx
    rw [hpart] at hx
    by_cases hid : id = seqId
    · subst hid
      simp [SlotPart.unassign] at hx
    · simp only [SlotPart.unassign, Function.update_of_ne hid] at hx
      exact ⟨hid, hx⟩
  refine ⟨hconfig.trans h.config_eq, ?_, ?_, ?_, ?_⟩
  · rw [hpart]
    exact h.sound.unassign seqId
  · intro k hk id d g seq _ hassign hseq
    obtain ⟨hid, hassign⟩ := hne hassign
    obtain ⟨a, ha, hrec⟩ := htable.recorded hid hseq k
    obtain ⟨n, hn, hslot⟩ := h.home k hk id d g a (by simpa using hid) hassign ha
    exact ⟨n, by simpa [hpart] using hn, hrec.trans hslot⟩
  · intro k id d g hassign d' hd' hne'
    have := h.only k id d g (hne hassign).2 d' hd' hne'
    simpa [hpart] using this
  · intro id hassign
    obtain ⟨x, hx⟩ := Option.ne_none_iff_exists'.1 hassign
    obtain ⟨hid, hx⟩ := hne hx
    obtain ⟨hL, hunf⟩ := h.assigned id (by rw [hx]; simp)
    exact ⟨hL, htable.unfinished hid hunf⟩

/-- A sequence gives everything back. -/
theorem release {seqId : ℕ} (h : SlotInv config L none s) (hconfig : s'.config = s.config)
    (hpart : s'.cache.slotPart = s.cache.slotPart.release seqId) (htable : OthersKept seqId s s') :
    SlotInv config L none s' := by
  have hne : ∀ {id x}, s'.cache.slotPart.seqAssignment id = some x → id ≠ seqId ∧
      s.cache.slotPart.seqAssignment id = some x := by
    intro id x hx
    rw [hpart] at hx
    by_cases hid : id = seqId
    · subst hid
      simp [SlotPart.release] at hx
    · simp only [SlotPart.release, Function.update_of_ne hid] at hx
      exact ⟨hid, hx⟩
  refine ⟨hconfig.trans h.config_eq, ?_, ?_, ?_, ?_⟩
  · rw [hpart]
    exact h.sound.release seqId
  · intro k hk id d g seq _ hassign hseq
    obtain ⟨hid, hassign⟩ := hne hassign
    obtain ⟨a, ha, hrec⟩ := htable.recorded hid hseq k
    obtain ⟨n, hn, hslot⟩ := h.home k hk id d g a (by simp) hassign ha
    refine ⟨n, ?_, hrec.trans hslot⟩
    rw [hpart, SlotPart.pools_release, SlotPool.remove_seqSlots, Function.update_of_ne hid, hn]
  · intro k id d g hassign d' hd' hne'
    rw [hpart, SlotPart.pools_release, SlotPool.remove_seqSlots, Function.update_of_ne (hne hassign).1]
    exact h.only k id d g (hne hassign).2 d' hd' hne'
  · intro id hassign
    obtain ⟨x, hx⟩ := Option.ne_none_iff_exists'.1 hassign
    obtain ⟨hid, hx⟩ := hne hx
    obtain ⟨hL, hunf⟩ := h.assigned id (by rw [hx]; simp)
    exact ⟨hL, htable.unfinished hid hunf⟩

/-- Nothing happens to slots and ranks; the pages may change. -/
theorem kept (h : SlotInv config L ex s) (hkept : SlotKept s s') (hsound : s'.cache.slotPart.PoolsSound config) :
    SlotInv config L ex s' := by
  refine ⟨hkept.config.trans h.config_eq, hsound, ?_, ?_, ?_⟩
  · intro k hk id d g seq hex ha hseq
    rw [hkept.seqAssignment] at ha
    rw [hkept.pools]
    obtain ⟨a, hold, hrec⟩ := (hkept.table.othersKept (id + 1)).recorded (by omega) hseq k
    obtain ⟨n, hn, hslot⟩ := h.home k hk id d g a hex ha hold
    exact ⟨n, hn, hrec.trans hslot⟩
  · intro k id d g ha
    rw [hkept.seqAssignment] at ha
    rw [hkept.pools]
    exact h.only k id d g ha
  · intro id hne
    rw [hkept.seqAssignment] at hne
    obtain ⟨hL, hunf⟩ := h.assigned id hne
    exact ⟨hL, (hkept.table.othersKept (id + 1)).unfinished (by omega) hunf⟩

theorem same (h : SlotInv config L ex s) (hsame : SlotSame s s') : SlotInv config L ex s' :=
  h.kept hsame.kept (hsame.slotPart ▸ h.sound)

/-- A sequence that holds no slot of another rank gets a rank. -/
theorem assign {seqId dpIdx groupId : ℕ} (h : SlotInv config L none s) (hconfig : s'.config = s.config)
    (hpart : s'.cache.slotPart = s.cache.slotPart.assign seqId dpIdx groupId) (htable : OthersKept seqId s s')
    (honly : ∀ (k : SlotKind), ∀ d' < config.dp, d' ≠ dpIdx →
      (k.pools s.cache.slotPart d').seqSlots seqId = none)
    (hlive : seqId ∈ L) (hunf : s'.unfinished seqId = true) : SlotInv config L (some seqId) s' := by
  have hcases : ∀ {id x}, s'.cache.slotPart.seqAssignment id = some x → id = seqId ∧ x = (dpIdx, groupId) ∨
      id ≠ seqId ∧ s.cache.slotPart.seqAssignment id = some x := by
    intro id x hx
    rw [hpart] at hx
    by_cases hid : id = seqId
    · subst hid
      simp only [SlotPart.assign, Function.update_self, Option.some.injEq] at hx
      exact .inl ⟨rfl, hx.symm⟩
    · simp only [SlotPart.assign, Function.update_of_ne hid] at hx
      exact .inr ⟨hid, hx⟩
  refine ⟨hconfig.trans h.config_eq, ?_, ?_, ?_, ?_⟩
  · rw [hpart]
    exact h.sound.assign seqId dpIdx groupId
  · intro k hk id d g seq hex hassign hseq
    have hid : id ≠ seqId := by simpa using hex
    obtain ⟨hid', -⟩ | ⟨-, hassign'⟩ := hcases hassign
    · exact absurd hid' hid
    · obtain ⟨a, ha, hrec⟩ := htable.recorded hid hseq k
      obtain ⟨n, hn, hslot⟩ := h.home k hk id d g a (by simp) hassign' ha
      exact ⟨n, by simpa [hpart] using hn, hrec.trans hslot⟩
  · intro k id d g hassign d' hd' hne'
    rw [hpart, SlotPart.pools_assign]
    rcases hcases hassign with ⟨rfl, hx⟩ | ⟨-, hassign'⟩
    · cases hx
      exact honly k d' hd' hne'
    · exact h.only k id d g hassign' d' hd' hne'
  · intro id hassign
    obtain ⟨x, hx⟩ := Option.ne_none_iff_exists'.1 hassign
    rcases hcases hx with ⟨rfl, -⟩ | ⟨hid, hx⟩
    · exact ⟨hlive, hunf⟩
    · obtain ⟨hL, hunf'⟩ := h.assigned id (by rw [hx]; simp)
      exact ⟨hL, htable.unfinished hid hunf'⟩

/-- The slots of the sequence in between are where it is. -/
theorem settle {seqId : ℕ} (h : SlotInv config L (some seqId) s)
    (hhome : ∀ k : SlotKind, k.taken config = true →
      ∀ d g seq, s.cache.slotPart.seqAssignment seqId = some (d, g) →
      s.seqTable seqId = some seq → ∃ n : ℕ, (k.pools s.cache.slotPart d).seqSlots seqId = some n ∧
        k.recorded seq = n) :
    SlotInv config L none s := by
  refine { h with home := fun k hk id d g seq _ hassign hseq => ?_ }
  by_cases hid : id = seqId
  · subst hid
    exact hhome k hk d g seq hassign hseq
  · exact h.home k hk id d g seq (by simpa using hid) hassign hseq

/-- A weaker statement: one sequence is left out. -/
theorem leaveOut (h : SlotInv config L none s) (seqId : ℕ) : SlotInv config L (some seqId) s :=
  { h with home := fun k hk id d g seq _ => h.home k hk id d g seq (by simp) }

end SlotInv

end NanoEngine
