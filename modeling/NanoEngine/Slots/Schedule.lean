import NanoEngine.Slots.Admission

/-!
# NanoEngine.Slots.Schedule — slots along a `schedule` call

* `slotTest`: a sequence is admitted on a rank only while it holds no slot of another rank, and restored only where it
  still holds the slots it records.
* `hasRank`: only sequences with a rank are grown.
-/

namespace NanoEngine

open Scheduler

namespace Scheduler

/-- The sequence holds no slot of a rank other than `dpIdx`. -/
def slotsOnlyOn (s : Scheduler) (seqId dpIdx : ℕ) : Bool :=
  (List.range s.dp).all (fun d => decide (d = dpIdx) ||
    ((s.cache.stateSlots d).seqSlots seqId).isNone && ((s.cache.hisparseSlots d).seqSlots seqId).isNone)

/-- The slots that the sequence records are its slots in the pools of the rank. -/
def slotsHere (s : Scheduler) (seqId dpIdx : ℕ) : Bool :=
  match s.seqTable seqId with
  | none => true
  | some seq =>
    (!SlotKind.taken .state s.config ||
      decide (((s.cache.stateSlots dpIdx).seqSlots seqId).map (fun n : ℕ => (n : ℤ)) = some seq.activeStateSlot)) &&
    (!SlotKind.taken .hisparse s.config ||
      decide (((s.cache.hisparseSlots dpIdx).seqSlots seqId).map (fun n : ℕ => (n : ℤ)) =
        some seq.activeHisparseSlot))

/-- The rank that a swapped-out sequence is restored on. -/
def homeRank (s : Scheduler) (seqId : ℕ) : Option ℕ :=
  (s.seqTable seqId).map (fun seq => (max seq.activeDpIdx 0).toNat)

def hasRank (s : Scheduler) (seqId : ℕ) : Bool := (s.cache.seqAssignment seqId).isSome

theorem slotsOnlyOn_pools {s : Scheduler} {id d : ℕ} (h : s.slotsOnlyOn id d = true) (k : SlotKind) :
    ∀ d' < s.dp, d' ≠ d → (k.pools s.cache.slotPart d').seqSlots id = none := by
  intro d' hd' hne
  have hall := List.all_eq_true.1 h d' (List.mem_range.2 hd')
  rw [Bool.or_eq_true, Bool.and_eq_true] at hall
  have hboth := hall.resolve_left (by simpa using hne)
  cases k with
  | state => exact Option.isNone_iff_eq_none.1 hboth.1
  | hisparse => exact Option.isNone_iff_eq_none.1 hboth.2

theorem slotsHere_home {s : Scheduler} {id d : ℕ} (h : s.slotsHere id d = true) {seq : Sequence}
    (hseq : s.seqTable id = some seq) (k : SlotKind) (hk : k.taken s.config = true) :
    ∃ n : ℕ, (k.pools s.cache.slotPart d).seqSlots id = some n ∧ k.recorded seq = n := by
  have hmap : ∀ {o : Option ℕ} {x : ℤ}, o.map (fun n : ℕ => (n : ℤ)) = some x →
    ∃ n : ℕ, o = some n ∧ x = n := by
    intro o x hx
    obtain ⟨n, hn, hnx⟩ := Option.map_eq_some_iff.1 hx
    exact ⟨n, hn, hnx.symm⟩
  unfold slotsHere at h
  rw [hseq] at h
  simp only [Bool.and_eq_true, Bool.or_eq_true, Bool.not_eq_true', decide_eq_true_eq] at h
  cases k with
  | state => exact hmap (h.1.resolve_left (by simp [hk]))
  | hisparse => exact hmap (h.2.resolve_left (by simp [hk]))

/-- Queues and counters say nothing about slots. -/
theorem SlotSame.of_eq {s s' : Scheduler} (hconfig : s'.config = s.config)
    (hcache : s'.cache.slotPart = s.cache.slotPart)
    (htable : s'.seqTable = s.seqTable) : SlotSame s s' :=
  ⟨hconfig, hcache, fun id hn => by rw [htable, hn], fun id a ha => ⟨a, by rw [htable, ha], .refl a⟩⟩

end Scheduler

namespace SlotInv

variable [Xxh3] {config : SchedulerConfig} {L : Finset ℕ} {s s' : Scheduler} {id d : ℕ}

/-! ## Preemption -/

omit [Xxh3] in
theorem releaseSeq (h : SlotInv config L none s) (id : ℕ) : SlotInv config L none (s.releaseSeq id) :=
  h.release rfl (CacheState.releaseSeq_slotPart _ _ _) ⟨fun _ _ hn => hn, fun _ _ a ha => ⟨a, ha, .refl a⟩⟩

theorem preemptImpl (h : SlotInv config L none s) (dpIdx id : ℕ) :
    SlotInv config L none (s.preemptImpl dpIdx id) := by
  have hrequeue : SlotSame s (s.updateSeq id Sequence.requeue) :=
    .updateSeq s id _ fun _ => ⟨rfl, rfl, fun hf => by cases hf⟩
  have hswap := hrequeue.trans ((s.updateSeq id Sequence.requeue).cachePrepareHostSwapOut_same id)
  unfold Scheduler.preemptImpl
  split
  case h_1 s' heq =>
    rw [heq] at hswap
    exact (h.same hswap).same (.of_eq rfl rfl rfl)
  case h_2 s' heq =>
    rw [heq] at hswap
    exact ((h.same hswap).releaseSeq id).same (.of_eq rfl rfl rfl)

/-! ## Admission -/

omit [Xxh3] in
theorem beginAdmission (h : SlotInv config L none s) (hlive : id ∈ L) (hentry : s.seqTable id ≠ none)
    (honly : s.slotsOnlyOn id d = true) (master : ℕ) (cached chunkEnd : ℤ) (dispatch : List ℤ) :
    SlotInv config L (some id) (s.beginAdmission id d master cached chunkEnd dispatch) := by
  have hdp : s.dp = config.dp := congrArg SchedulerConfig.dp h.config_eq
  refine h.assign rfl rfl (.setCache_updateSeq s _ id _) (hdp ▸ slotsOnlyOn_pools honly) hlive ?_
  obtain ⟨a, ha⟩ := Option.ne_none_iff_exists'.1 hentry
  unfold Scheduler.beginAdmission unfinished
  simp only [updateSeq, setCache, Function.update_self, ha, Option.map_some, Option.getD_some]
  by_cases hmode : s.config.mode = .decode <;> simp [hmode]

omit [Xxh3] in
theorem ensure_of_not_exhausted {k : SlotKind} (hexhausted : s.slotsExhausted id d = false)
    (honly : s.slotsOnlyOn id d = true)
    (hk : k.taken s.config = true) : ((k.pools s.cache.slotPart d).ensure id).1 ≠ none := by
  have hpools := slotsOnlyOn_pools honly k
  have hpool : ∀ {p : SlotPool}, p.canEnsure id = true → (p.ensure id).1 ≠ none := by
    intro p hp hnone
    unfold SlotPool.canEnsure at hp
    unfold SlotPool.ensure at hnone
    split at hnone
    case h_1 => cases hnone
    case h_2 hs =>
      split at hnone
      case h_1 hfree => simp [hs, hfree] at hp
      case h_2 => cases hnone
  -- the pool of the rank is asked, or the sequence has its slot there and nowhere else
  have hfound : ∀ {pools : ℕ → SlotPool}, (∀ d' < s.dp, d' ≠ d → (pools d').seqSlots id = none) →
      (((List.range s.dp).findSome? (fun d => (pools d).seqSlots id)).isSome || (pools d).canEnsure id) = true →
      ((pools d).ensure id).1 ≠ none := by
    intro pools hother hor
    rcases Bool.or_eq_true_iff.1 hor with hsome | hcan
    · obtain ⟨slot, hslot⟩ := Option.isSome_iff_exists.1 hsome
      rw [SlotPool.ensure_of_some (findSome_slot hother hslot)]
      simp
    · exact hpool hcan
  unfold slotsExhausted at hexhausted
  rw [Bool.or_eq_false_iff] at hexhausted
  cases k with
  | state =>
    refine hfound hpools ?_
    have hcan := hexhausted.1
    rw [show (s.config.needsMtpHandoff || s.config.cachePlan.hasState) = true from hk, Bool.true_and,
      Bool.not_eq_false'] at hcan
    exact hcan
  | hisparse =>
    refine hfound hpools ?_
    have hcan := hexhausted.2
    rw [show s.config.cachePlan.hisparse = true from hk, Bool.true_and, Bool.not_eq_false'] at hcan
    exact hcan

omit [Xxh3] in
theorem cancelAdmission (h : SlotInv config L (some id) s) : SlotInv config L none (s.cancelAdmission id) :=
  h.unassign rfl rfl (.setCache_updateSeq s _ id _)

omit [Xxh3] in
theorem finishAdmission {g : ℕ} (h : SlotInv config L (some id) s)
    (hassign : s.cache.slotPart.seqAssignment id = some (d, g))
    (hcan : ∀ k : SlotKind, k.taken config = true → ((k.pools s.cache.slotPart d).ensure id).1 ≠ none)
    (master : ℕ)
    (fullLen cached : ℤ) : SlotInv config L none (s.finishAdmission id master fullLen cached).2 := by
  unfold Scheduler.finishAdmission
  set f : Sequence → Sequence := fun seq =>
    if s.config.mode = .decode then { seq with activeGroupId := master }
    else { seq with activeGroupId := master, migrateGroupId := master } with hf
  have hsame : SlotSame s (s.updateSeq id f) := by
    refine .updateSeq s id f fun a => ?_
    rw [hf]
    by_cases hmode : s.config.mode = .decode
    · simp only [hmode, if_true]
      exact ⟨rfl, rfl, fun h => h⟩
    · simp only [hmode, if_false]
      exact ⟨rfl, rfl, fun h => h⟩
  have hens := (h.same hsame).ensureSlotsAndPages (d := d) (g := g) hassign hcan fullLen
  dsimp only
  split
  case h_1 e s₁ heq =>
    rw [heq] at hens
    exact hens
  case h_2 s₁ heq =>
    rw [heq] at hens
    split
    case isTrue => exact hens.same (.setCache s₁ rfl)
    case isFalse =>
      have hattach : SlotSame s₁ (s₁.attachMigrateSlots id) :=
        .updateSeq s₁ id _ fun _ => ⟨rfl, rfl, fun h => h⟩
      exact (hens.same hattach).same (.setCache _ rfl)

/-- **One admission keeps the slots in order**, whatever it returns. -/
theorem tryAllocatePrefill (h : SlotInv config L none s) (hlive : id ∈ L) (honly : s.slotsOnlyOn id d = true)
    (batchSeqs batchTokens : ℕ → ℤ) :
      SlotInv config L none (s.tryAllocatePrefill id d batchSeqs batchTokens).2 := by
  have hprep := s.prepareAdmission_same id d batchSeqs batchTokens
  unfold Scheduler.tryAllocatePrefill
  split
  case h_1 s₁ heq =>
    rw [heq] at hprep
    exact h.same hprep
  case h_2 a s₁ heq =>
    rw [heq] at hprep
    obtain ⟨seq, hseq, -⟩ := prepareAdmission_some heq
    obtain ⟨seq₁, hseq₁, -⟩ := hprep.table.entry id seq hseq.entry
    have honly₁ : s₁.slotsOnlyOn id d = true := by
      have hdp : s₁.dp = s.dp := congrArg SchedulerConfig.dp hprep.config
      have hstate := congrArg SlotPart.stateSlots hprep.slotPart
      have hhisparse := congrArg SlotPart.hisparseSlots hprep.slotPart
      dsimp only [CacheState.slotPart] at hstate hhisparse
      unfold slotsOnlyOn at honly ⊢
      rwa [hdp, hstate, hhisparse]
    set dispatch := s₁.computeDispatch d a.master a.fullLen with hdispatch
    have hbegin := (h.same hprep).beginAdmission hlive (by rw [hseq₁]; simp) honly₁ a.master a.cached
      (a.cached + a.newTokens) dispatch
    have hreserve := ensureDispatched_same id d 0 dispatch
      (s₁.beginAdmission id d a.master a.cached (a.cached + a.newTokens) dispatch)
    have hinv := hbegin.same hreserve
    split
    case h_1 e s₂ hres =>
      rw [show (ensureDispatched id d 0 dispatch _).2 = s₂ from congrArg Prod.snd hres] at hinv
      have hcancel := hinv.cancelAdmission
      unfold preemptOneForAllocation
      split
      case h_1 s₃ hpre =>
        split at hpre
        case h_1 => cases hpre
        case h_2 victim _ =>
          obtain ⟨-, rfl⟩ := Prod.mk.inj hpre
          exact hcancel.preemptImpl d victim
      case h_2 s₃ hpre =>
        split at hpre
        case h_1 =>
          obtain ⟨-, rfl⟩ := Prod.mk.inj hpre
          exact hcancel
        case h_2 => cases hpre
    case h_2 s₂ hres =>
      have hs₂ : (ensureDispatched id d 0 dispatch
          (s₁.beginAdmission id d a.master a.cached (a.cached + a.newTokens) dispatch)).2 = s₂ :=
            congrArg Prod.snd hres
      rw [hs₂] at hinv hreserve
      -- nothing since the check of the slots has touched them
      have hpools : ∀ k : SlotKind, k.pools s₂.cache.slotPart = k.pools s.cache.slotPart := by
        intro k
        rw [hreserve.slotPart]
        show k.pools (s₁.cache.slotPart.assign id d a.master) = _
        rw [SlotPart.pools_assign, hprep.slotPart]
      have hassign : s₂.cache.slotPart.seqAssignment id = some (d, a.master) := by
        rw [hreserve.slotPart]
        exact Function.update_self _ _ _
      have hfin := hinv.finishAdmission hassign (fun k hk => by
        rw [hpools]
        exact ensure_of_not_exhausted hseq.slots honly (h.config_eq ▸ hk)) a.master a.fullLen a.cached
      split
      case h_1 e s₃ heq₃ =>
        rw [heq₃] at hfin
        exact hfin
      case h_2 s₃ heq₃ =>
        rw [heq₃] at hfin
        exact hfin

end SlotInv

end NanoEngine
