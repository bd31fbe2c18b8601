import Mathlib.Algebra.Order.BigOperators.Group.Finset
import Mathlib.Algebra.Order.Ring.Int
import Mathlib.Data.List.ProdSigma
import Mathlib.Data.Nat.Log
import Mathlib.Order.Lattice.Nat
import NanoEngine.Lib.Tickets
import NanoEngine.Lib.Transition

/-!
# NanoEngine.Experts.LocalDispatch — tokens to the padded buffer of their experts, and back

`local_dispatch_kernel` and `local_combine_kernel` of `kernel/triton/generic/local_dispatch.py`, launched by the
`LocalPaddedDispatcher` of `layers/backends/experts/local_dispatch.py`.  Tensors are functions of their indices.

* `dispatchSystem`: the programs of one launch, one for each pair of a token and a choice, in any order of their steps;
  a step is the atomic add, the test of the slot, or the copy of one block.
* `DispatchInv`: every program that has passed its atomic add holds a ticket of its expert's counter.
* `Bucketed`: what is in the buffer and in the slot map after the launch.
* `combine`: the programs of the second kernel, in any order of their stores.
* `local_dispatch`: every order leads to a dispatched buffer, and `combine` gives every token the weighted sum over its
  choices that were kept.
-/

namespace NanoEngine.Experts

open Transition Tickets

def ALIGNMENT : ℕ := 128

/-- `triton.next_power_of_2`. -/
def nextPowerOf2 (n : ℕ) : ℕ := 2 ^ Nat.clog 2 n

def alignUp (x align : ℕ) : ℕ := (x + align - 1) / align * align

/-- The sizes of the preallocated buffers; `H` is the hidden size. -/
structure LocalPaddedDispatcher (H : ℕ) where
  E : ℕ
  maxM : ℕ
  K : ℕ
  maxT : ℕ

namespace LocalPaddedDispatcher

variable {H : ℕ}

def init (H numLocalExperts maxM topK maxNumTokens : ℕ) : LocalPaddedDispatcher H where
  E := numLocalExperts
  maxM := alignUp (max maxM ALIGNMENT) ALIGNMENT
  K := topK
  maxT := maxNumTokens

/-- `from_experts`; `max_num_seqs` is that of the runner config. -/
def fromExperts (H numLocalExperts topK maxNumSeqs : ℕ) : LocalPaddedDispatcher H :=
  let maxNumSeqs := if maxNumSeqs = 0 then 512 else maxNumSeqs
  let capacityFactor := 2
  let rawMaxM := maxNumSeqs * topK / numLocalExperts * capacityFactor
  init H numLocalExperts (max rawMaxM 128) topK maxNumSeqs

end LocalPaddedDispatcher

/-- `BLOCK_H` of both kernels. -/
def blockH (H : ℕ) : ℕ := min (nextPowerOf2 H) 1024

theorem blockH_pos (H : ℕ) : 0 < blockH H := Nat.lt_min.2 ⟨Nat.pow_pos (by decide), by decide⟩

/-- One call of `dispatch` whose assertion passes. -/
structure Launch (B : Type*) (H : ℕ) where
  disp : LocalPaddedDispatcher H
  T : ℕ
  hiddenStates : ℕ → Fin H → B
  topkIds : ℕ → ℕ → ℤ
  fits : T ≤ disp.maxT

/-- Where a program of the dispatch kernel is. -/
inductive DispatchPc
  | start
  | claimed (slot : ℕ)
  | copying (slot hStart : ℕ)
  | returned
  deriving DecidableEq

structure DispatchState (B : Type*) (H : ℕ) where
  pc : ℕ → DispatchPc
  maskedM : ℕ → ℕ
  slotMap : ℕ → ℕ → ℤ
  paddedBuf : ℕ → ℕ → Fin H → B

variable {B : Type*} {H : ℕ}

namespace Launch

variable (l : Launch B H)

/-- The grid. -/
def programs : ℕ := l.T * l.disp.K

def token (pid : ℕ) : ℕ := pid / l.disp.K

def choice (pid : ℕ) : ℕ := pid % l.disp.K

def expertId (pid : ℕ) : ℤ := l.topkIds (l.token pid) (l.choice pid)

def expert (pid : ℕ) : ℕ := (l.expertId pid).toNat

def Valid (pid : ℕ) : Prop := ¬ (l.expertId pid < 0 ∨ (l.disp.E : ℤ) ≤ l.expertId pid)

instance (pid : ℕ) : Decidable (l.Valid pid) := inferInstanceAs (Decidable (¬ _))

/-- The pairs that choose expert `e`. -/
def routed (e : ℕ) : Finset ℕ := (Finset.range l.programs).filter fun pid => l.Valid pid ∧ l.expert pid = e

end Launch

namespace DispatchState

variable (s : DispatchState B H)

/-- `tl.store(slot_map_ptr + t * stride_sm_t + k * stride_sm_k, slot)`. -/
def storeSlot (t k : ℕ) (slot : ℤ) : ℕ → ℕ → ℤ :=
  fun t' k' => if t' = t ∧ k' = k then slot else s.slotMap t' k'

/-- The masked store of the block that begins at `hStart`. -/
def storeBlock (e slot hStart width : ℕ) (vals : Fin H → B) : ℕ → ℕ → Fin H → B :=
  fun e' slot' h =>
    if e' = e ∧ slot' = slot ∧ hStart ≤ h.val ∧ h.val < hStart + width then vals h else s.paddedBuf e' slot' h

end DispatchState

/-- One step of program `pid`. -/
def Launch.step (l : Launch B H) (s : DispatchState B H) (pid : ℕ) : Option (DispatchState B H) :=
  if pid < l.programs then
    match s.pc pid with
    | .start =>
      if l.expertId pid < 0 ∨ (l.disp.E : ℤ) ≤ l.expertId pid then
        some { s with
          slotMap := s.storeSlot (l.token pid) (l.choice pid) (-1)
          pc := Function.update s.pc pid .returned }
      else
        let slot := s.maskedM (l.expert pid)
        some { s with
          maskedM := Function.update s.maskedM (l.expert pid) (slot + 1)
          pc := Function.update s.pc pid (.claimed slot) }
    | .claimed slot =>
      if l.disp.maxM ≤ slot then
        some { s with
          slotMap := s.storeSlot (l.token pid) (l.choice pid) (-1)
          pc := Function.update s.pc pid .returned }
      else
        some { s with
          slotMap := s.storeSlot (l.token pid) (l.choice pid) slot
          pc := Function.update s.pc pid (.copying slot 0) }
    | .copying slot hStart =>
      if hStart < H then
        some { s with
          paddedBuf := s.storeBlock (l.expert pid) slot hStart (blockH H) (l.hiddenStates (l.token pid))
          pc := Function.update s.pc pid (.copying slot (hStart + blockH H)) }
      else some { s with pc := Function.update s.pc pid .returned }
    | .returned => none
  else none

/-- One launch: `dispatch` clears the buffers; rows of the slot map from `T` on are those of earlier calls. -/
def dispatchSystem [Zero B] (l : Launch B H) : System (DispatchState B H) ℕ where
  initial s := (∀ pid, s.pc pid = .start) ∧ (∀ e, s.maskedM e = 0) ∧
    (∀ t < l.T, ∀ k, s.slotMap t k = -1) ∧
    ∀ e m h, s.paddedBuf e m h = 0
  next := l.step

/-- Every program has returned. -/
def Finished (l : Launch B H) (s : DispatchState B H) : Prop := ∀ pid < l.programs, s.pc pid = .returned

instance (l : Launch B H) (s : DispatchState B H) : Decidable (Finished l s) := Nat.decidableBallLT _ _

/-! ### What one step can do -/

/-- The steps of a program. -/
inductive StepCase (l : Launch B H) (s : DispatchState B H) (pid : ℕ) : DispatchState B H → Prop
  | invalid (hpc : s.pc pid = .start) (hvalid : ¬ l.Valid pid) : StepCase l s pid { s with
      slotMap := s.storeSlot (l.token pid) (l.choice pid) (-1)
      pc := Function.update s.pc pid .returned }
  | claim (hpc : s.pc pid = .start) (hvalid : l.Valid pid) : StepCase l s pid { s with
      maskedM := Function.update s.maskedM (l.expert pid) (s.maskedM (l.expert pid) + 1)
      pc := Function.update s.pc pid (.claimed (s.maskedM (l.expert pid))) }
  | overflow (slot : ℕ) (hpc : s.pc pid = .claimed slot) (hslot : l.disp.maxM ≤ slot) : StepCase l s pid { s with
      slotMap := s.storeSlot (l.token pid) (l.choice pid) (-1)
      pc := Function.update s.pc pid .returned }
  | keep (slot : ℕ) (hpc : s.pc pid = .claimed slot) (hslot : slot < l.disp.maxM) : StepCase l s pid { s with
      slotMap := s.storeSlot (l.token pid) (l.choice pid) slot
      pc := Function.update s.pc pid (.copying slot 0) }
  | copy (slot hStart : ℕ) (hpc : s.pc pid = .copying slot hStart) (hstart : hStart < H) : StepCase l s pid { s with
      paddedBuf := s.storeBlock (l.expert pid) slot hStart (blockH H) (l.hiddenStates (l.token pid))
      pc := Function.update s.pc pid (.copying slot (hStart + blockH H)) }
  | copied (slot hStart : ℕ) (hpc : s.pc pid = .copying slot hStart) (hstart : H ≤ hStart) :
      StepCase l s pid { s with pc := Function.update s.pc pid .returned }

section Steps

variable {l : Launch B H} {s s' : DispatchState B H} {pid : ℕ}

theorem step_cases (h : l.step s pid = some s') : pid < l.programs ∧ StepCase l s pid s' := by
  unfold Launch.step at h
  split at h
  case isFalse => cases h
  case isTrue hpid =>
    refine ⟨hpid, ?_⟩
    split at h
    case h_1 hpc =>
      split at h <;> cases h
      case isTrue hv => exact .invalid hpc fun hvalid => hvalid hv
      case isFalse hv => exact .claim hpc hv
    case h_2 slot hpc =>
      split at h <;> cases h
      case isTrue hslot => exact .overflow slot hpc hslot
      case isFalse hslot => exact .keep slot hpc (Nat.lt_of_not_le hslot)
    case h_3 slot hStart hpc =>
      split at h <;> cases h
      case isTrue hstart => exact .copy slot hStart hpc hstart
      case isFalse hstart => exact .copied slot hStart hpc (Nat.le_of_not_lt hstart)
    case h_4 => cases h

/-- A program that has not returned can take a step. -/
theorem step_isSome (hpid : pid < l.programs) (hpc : s.pc pid ≠ .returned) : (l.step s pid).isSome := by
  unfold Launch.step
  rw [if_pos hpid]
  cases hs : s.pc pid with
  | start => dsimp only; split <;> rfl
  | claimed slot => dsimp only; split <;> rfl
  | copying slot hStart => dsimp only; split <;> rfl
  | returned => exact absurd hs hpc

end Steps

/-! ### The invariant of a launch -/

/-- The programs past their atomic add. -/
def started (l : Launch B H) (s : DispatchState B H) : Finset ℕ :=
  (Finset.range l.programs).filter fun pid => l.Valid pid ∧ s.pc pid ≠ .start

theorem mem_started {l : Launch B H} {s : DispatchState B H} {pid : ℕ} :
    pid ∈ started l s ↔ pid < l.programs ∧ l.Valid pid ∧ s.pc pid ≠ .start := by
  rw [started, Finset.mem_filter, Finset.mem_range]

/-- The entry of the slot map that program `pid` writes. -/
def slotOf (l : Launch B H) (s : DispatchState B H) (pid : ℕ) : ℤ := s.slotMap (l.token pid) (l.choice pid)

/-- What a program with ticket `ticket` has written so far. -/
def Written (l : Launch B H) (s : DispatchState B H) (pid ticket : ℕ) : DispatchPc → Prop
  | .start => slotOf l s pid = -1
  | .claimed slot => l.Valid pid ∧ slot = ticket ∧ slotOf l s pid = -1
  | .copying slot hStart => l.Valid pid ∧ slot = ticket ∧ ticket < l.disp.maxM ∧ slotOf l s pid = ticket ∧
      ∀ h : Fin H, h.val < hStart → s.paddedBuf (l.expert pid) ticket h = l.hiddenStates (l.token pid) h
  | .returned =>
      if l.Valid pid ∧ ticket < l.disp.maxM then
        slotOf l s pid = ticket ∧ s.paddedBuf (l.expert pid) ticket = l.hiddenStates (l.token pid)
      else slotOf l s pid = -1

/-- The state of a launch, with the tickets of the programs. -/
structure DispatchInv [Zero B] (l : Launch B H) (ticket : ℕ → ℕ) (s : DispatchState B H) : Prop where
  taken : Taken l.expert (started l s) ticket s.maskedM
  written : ∀ pid < l.programs, Written l s pid (ticket pid) (s.pc pid)
  zero : ∀ e m, s.maskedM e ≤ m → ∀ h, s.paddedBuf e m h = 0

section Frame

variable {l : Launch B H} {s s' : DispatchState B H} {pid pid' : ℕ}

theorem started_eq (hpc : ∀ q, l.Valid q → (s'.pc q = .start ↔ s.pc q = .start)) :
    started l s' = started l s := by
  refine Finset.filter_congr fun q _ => and_congr_right fun hq => not_congr (hpc q hq)

theorem started_claim (hpid : pid < l.programs) (hvalid : l.Valid pid) {slot : ℕ}
    (hs' : s'.pc = Function.update s.pc pid (.claimed slot)) : started l s' = insert pid (started l s) := by
  ext q
  rw [Finset.mem_insert, mem_started, mem_started, hs']
  by_cases hq : q = pid
  · subst hq
    simp [hpid, hvalid]
  · rw [Function.update_of_ne hq]
    exact (or_iff_right hq).symm

theorem started_finished (hf : Finished l s) (e : ℕ) : (started l s).filter (l.expert · = e) = l.routed e := by
  ext q
  rw [Finset.mem_filter, mem_started, Launch.routed, Finset.mem_filter, Finset.mem_range]
  constructor
  · rintro ⟨⟨hq, hvalid, -⟩, he⟩
    exact ⟨hq, hvalid, he⟩
  · rintro ⟨hq, hvalid, he⟩
    exact ⟨⟨hq, hvalid, by simp [hf q hq]⟩, he⟩

/-- The program of token `t` and choice `k`. -/
theorem pid_of_choice {t k : ℕ} (ht : t < l.T) (hk : k < l.disp.K) :
    t * l.disp.K + k < l.programs ∧ l.token (t * l.disp.K + k) = t ∧ l.choice (t * l.disp.K + k) = k := by
  refine ⟨?_, ?_, ?_⟩
  · have hle : (t + 1) * l.disp.K ≤ l.T * l.disp.K := Nat.mul_le_mul_right _ ht
    rw [Nat.add_one_mul] at hle
    exact Nat.lt_of_lt_of_le (Nat.add_lt_add_left hk _) hle
  · rw [Launch.token, Nat.mul_comm, Nat.mul_add_div (by omega), Nat.div_eq_of_lt hk, Nat.add_zero]
  · rw [Launch.choice, Nat.mul_comm, Nat.mul_add_mod, Nat.mod_eq_of_lt hk]

/-- Two programs write different entries of the slot map. -/
theorem pid_ext (ht : l.token pid' = l.token pid) (hk : l.choice pid' = l.choice pid) : pid' = pid := by
  rw [← Nat.div_add_mod pid' l.disp.K, ← Nat.div_add_mod pid l.disp.K]
  exact congrArg₂ (fun a b => l.disp.K * a + b) ht hk

theorem storeSlot_self (t k : ℕ) (slot : ℤ) : s.storeSlot t k slot t k = slot := if_pos ⟨rfl, rfl⟩

theorem storeSlot_other (slot : ℤ) (hne : pid' ≠ pid) :
    s.storeSlot (l.token pid) (l.choice pid) slot (l.token pid') (l.choice pid') = slotOf l s pid' :=
  if_neg fun h => hne (pid_ext h.1 h.2)

theorem storeBlock_other {e e' slot slot' hStart width : ℕ} {vals : Fin H → B}
    (hne : ¬ (e' = e ∧ slot' = slot)) :
    s.storeBlock e slot hStart width vals e' slot' = s.paddedBuf e' slot' := by
  funext h
  exact if_neg fun hall => hne ⟨hall.1, hall.2.1⟩

/-- What a program has written stays as long as nobody else writes there. -/
theorem Written.frame {ticket : ℕ} {pc : DispatchPc} (h : Written l s pid ticket pc)
    (hslot : slotOf l s' pid = slotOf l s pid)
    (hbuf : l.Valid pid → pc ≠ .start → s'.paddedBuf (l.expert pid) ticket = s.paddedBuf (l.expert pid) ticket) :
    Written l s' pid ticket pc := by
  cases pc with
  | start => exact hslot.trans h
  | claimed slot => exact ⟨h.1, h.2.1, hslot.trans h.2.2⟩
  | copying slot hStart =>
    obtain ⟨hvalid, hticket, hlt, hmap, hrow⟩ := h
    refine ⟨hvalid, hticket, hlt, hslot.trans hmap, fun i hi => ?_⟩
    rw [hbuf hvalid (by simp)]
    exact hrow i hi
  | returned =>
    by_cases hkept : l.Valid pid ∧ ticket < l.disp.maxM
    · rw [Written, if_pos hkept] at h ⊢
      exact ⟨hslot.trans h.1, (hbuf hkept.1 (by simp)).trans h.2⟩
    · rw [Written, if_neg hkept] at h ⊢
      exact hslot.trans h

theorem Written.of_claimed {slot t : ℕ} (h : Written l s pid t (.claimed slot)) :
    l.Valid pid ∧ slot = t ∧ slotOf l s pid = -1 := h

theorem Written.of_copying {slot hStart t : ℕ} (h : Written l s pid t (.copying slot hStart)) :
    l.Valid pid ∧ slot = t ∧ t < l.disp.maxM ∧ slotOf l s pid = t ∧
      ∀ h : Fin H, h.val < hStart → s.paddedBuf (l.expert pid) t h = l.hiddenStates (l.token pid) h := h

end Frame

section Invariant

variable [Zero B] {l : Launch B H} {s s' : DispatchState B H} {pid : ℕ} {ticket : ℕ → ℕ}

theorem started_initial (h : (dispatchSystem l).initial s) : started l s = ∅ := by
  refine Finset.filter_eq_empty_iff.2 fun pid _ hpid => hpid.2 (h.1 pid)

theorem DispatchInv.initial (h : (dispatchSystem l).initial s) : DispatchInv l ticket s where
  taken := by
    rw [started_initial h, show s.maskedM = fun _ => 0 from funext h.2.1]
    exact Taken.empty _ _
  written pid hpid := by
    rw [h.1 pid]
    refine h.2.2.1 _ (Nat.div_lt_of_lt_mul ?_) _
    rwa [Nat.mul_comm]
  zero e m _ i := h.2.2.2 e m i

/-- A step that takes no ticket. -/
theorem DispatchInv.same_tickets (hi : DispatchInv l ticket s) {pc : DispatchPc}
    (hpc : s'.pc = Function.update s.pc pid pc) (hstart : l.Valid pid → (pc = .start ↔ s.pc pid = .start))
    (hmasked : s'.maskedM = s.maskedM) (hown : Written l s' pid (ticket pid) pc)
    (hslot : ∀ q, q ≠ pid → slotOf l s' q = slotOf l s q)
    (hbuf : ∀ q ∈ started l s, q ≠ pid →
      s'.paddedBuf (l.expert q) (ticket q) = s.paddedBuf (l.expert q) (ticket q))
    (hzero : ∀ e m, s.maskedM e ≤ m → s'.paddedBuf e m = s.paddedBuf e m) : DispatchInv l ticket s' where
  taken := by
    rw [hmasked, started_eq (s := s)]
    · exact hi.taken
    · intro q hq
      rw [hpc]
      by_cases hqp : q = pid
      · subst hqp
        rw [Function.update_self]
        exact hstart hq
      · rw [Function.update_of_ne hqp]
  written q hq := by
    by_cases hqp : q = pid
    · rw [hqp, hpc, Function.update_self]
      exact hown
    · rw [hpc, Function.update_of_ne hqp]
      exact (hi.written q hq).frame (hslot q hqp) fun hvalid hpc =>
        hbuf q (mem_started.2 ⟨hq, hvalid, hpc⟩) hqp
  zero e m hm h := by
    rw [hmasked] at hm
    rw [hzero e m hm]
    exact hi.zero e m hm h

/-- **Every step of every program keeps the invariant**; a program past its atomic add keeps its ticket. -/
theorem DispatchInv.next (hi : DispatchInv l ticket s) (h : l.step s pid = some s') :
    ∃ ticket', DispatchInv l ticket' s' := by
  obtain ⟨hpid, hcase⟩ := step_cases h
  have hw := hi.written pid hpid
  cases hcase with
  | invalid hpc hvalid =>
    refine ⟨ticket, hi.same_tickets rfl (fun hv => absurd hv hvalid) rfl ?_ (fun q hq => storeSlot_other _ hq)
      (fun _ _ _ => rfl) fun _ _ _ => rfl⟩
    rw [Written, if_neg fun hv => hvalid hv.1]
    exact storeSlot_self _ _ _
  -- the atomic add hands out the counter as a ticket that nobody else has
  | claim hpc hvalid =>
    have hnew : pid ∉ started l s := fun hmem => (mem_started.1 hmem).2.2 hpc
    refine ⟨Function.update ticket pid (s.maskedM (l.expert pid)), ?_, fun q hq => ?_, fun e m hm => ?_⟩
    · rw [started_claim hpid hvalid rfl]
      exact hi.taken.take hnew
    · by_cases hqp : q = pid
      · subst hqp
        dsimp only
        rw [Function.update_self, Function.update_self]
        rw [hpc] at hw
        exact ⟨hvalid, rfl, hw⟩
      · dsimp only
        rw [Function.update_of_ne hqp, Function.update_of_ne hqp]
        exact (hi.written q hq).frame rfl fun _ _ => rfl
    · refine hi.zero e m (Nat.le_trans ?_ hm)
      dsimp only
      by_cases he : e = l.expert pid
      · rw [he, Function.update_self]
        exact Nat.le_succ _
      · rw [Function.update_of_ne he]
  | overflow slot hpc hslot =>
    rw [hpc] at hw
    obtain ⟨-, hticket, -⟩ := hw.of_claimed
    refine ⟨ticket, hi.same_tickets rfl (fun _ => by simp [hpc]) rfl ?_ (fun q hq => storeSlot_other _ hq)
      (fun _ _ _ => rfl) fun _ _ _ => rfl⟩
    rw [Written, if_neg fun hv => Nat.not_lt.2 hslot (hticket ▸ hv.2)]
    exact storeSlot_self _ _ _
  | keep slot hpc hslot =>
    rw [hpc] at hw
    obtain ⟨hvalid, hticket, -⟩ := hw.of_claimed
    refine ⟨ticket, hi.same_tickets rfl (fun _ => by simp [hpc]) rfl ?_ (fun q hq => storeSlot_other _ hq)
      (fun _ _ _ => rfl) fun _ _ _ => rfl⟩
    refine ⟨hvalid, hticket, hticket ▸ hslot, ?_, fun h hlt => absurd hlt (Nat.not_lt_zero _)⟩
    rw [← hticket]
    exact storeSlot_self _ _ _
  | copy slot hStart hpc hstart =>
    rw [hpc] at hw
    obtain ⟨hvalid, hticket, hlt, hmap, hrow⟩ := hw.of_copying
    have hown : pid ∈ started l s := mem_started.2 ⟨hpid, hvalid, by simp [hpc]⟩
    refine ⟨ticket, hi.same_tickets rfl (fun _ => by simp [hpc]) rfl ?_ (fun _ _ => rfl) (fun q hq hne => ?_)
      fun e m hm => ?_⟩
    · refine ⟨hvalid, hticket, hlt, hmap, fun h hh => ?_⟩
      dsimp only [DispatchState.storeBlock]
      by_cases hold : hStart ≤ h.val
      · rw [if_pos ⟨rfl, hticket.symm, hold, hh⟩]
      · rw [if_neg fun hall => hold hall.2.2.1]
        exact hrow h (Nat.lt_of_not_le hold)
    -- a row of another program: two programs with one row would have one ticket
    · refine storeBlock_other fun heq => hne (hi.taken.inj q hq pid hown heq.1 (heq.2.trans hticket))
    · -- the block lies below the counter of its expert
      refine storeBlock_other fun heq => ?_
      have hbelow := hi.taken.lt pid hown
      rw [heq.1, heq.2, hticket] at hm
      exact Nat.lt_irrefl _ (Nat.lt_of_lt_of_le hbelow hm)
  | copied slot hStart hpc hstart =>
    rw [hpc] at hw
    obtain ⟨hvalid, hticket, hlt, hmap, hrow⟩ := hw.of_copying
    refine ⟨ticket, hi.same_tickets rfl (fun _ => by simp [hpc]) rfl ?_ (fun _ _ => rfl) (fun _ _ _ => rfl)
      fun _ _ _ => rfl⟩
    rw [Written, if_pos ⟨hvalid, hlt⟩]
    exact ⟨hmap, funext fun h => hrow h (Nat.lt_of_lt_of_le h.isLt hstart)⟩

theorem dispatchInv_invariant : Invariant (dispatchSystem l) always fun s => ∃ ticket, DispatchInv l ticket s where
  initial _ h := ⟨fun _ => 0, DispatchInv.initial h⟩
  next _ _ _ := fun ⟨_, hi⟩ _ h => hi.next h

end Invariant

/-! ### Every launch returns -/

/-- How far a program is from its return. -/
def DispatchPc.remaining (H : ℕ) : DispatchPc → ℕ
  | .start => H + 3
  | .claimed _ => H + 2
  | .copying _ hStart => H - hStart + 1
  | .returned => 0

def remaining (l : Launch B H) (s : DispatchState B H) : ℕ :=
  ∑ pid ∈ Finset.range l.programs, (s.pc pid).remaining H

section Progress

variable {l : Launch B H} {s s' : DispatchState B H} {pid : ℕ}

theorem StepCase.pc (h : StepCase l s pid s') :
    ∃ pc, s'.pc = Function.update s.pc pid pc ∧ pc.remaining H < (s.pc pid).remaining H := by
  cases h with
  | invalid hpc _ => exact ⟨_, rfl, by simp [hpc, DispatchPc.remaining]⟩
  | claim hpc _ => exact ⟨_, rfl, by simp [hpc, DispatchPc.remaining]⟩
  | overflow slot hpc _ => exact ⟨_, rfl, by simp [hpc, DispatchPc.remaining]⟩
  | keep slot hpc _ => exact ⟨_, rfl, by simp [hpc, DispatchPc.remaining]⟩
  | copy slot hStart hpc hstart =>
    refine ⟨_, rfl, ?_⟩
    rw [hpc]
    have hpos := blockH_pos H
    simp only [DispatchPc.remaining]
    omega
  | copied slot hStart hpc _ => exact ⟨_, rfl, by simp [hpc, DispatchPc.remaining]⟩

theorem remaining_step (h : l.step s pid = some s') : remaining l s' < remaining l s := by
  obtain ⟨hpid, hcase⟩ := step_cases h
  obtain ⟨pc, hpc, hlt⟩ := hcase.pc
  refine Finset.sum_lt_sum (fun q _ => ?_) ⟨pid, Finset.mem_range.2 hpid, ?_⟩
  · rw [hpc]
    by_cases hq : q = pid
    · rw [hq, Function.update_self]
      exact Nat.le_of_lt hlt
    · rw [Function.update_of_ne hq]
  · rwa [hpc, Function.update_self]

/-- Whatever has run so far, the launch can be run to its end. -/
theorem exists_finished [Zero B] (s : DispatchState B H) :
    ∃ pids s', run (dispatchSystem l) always pids s = some s' ∧ Finished l s' := by
  refine exists_run (I := fun _ => True) (fun _ _ _ h => remaining_step h) (fun _ _ _ _ _ _ => trivial)
    (fun s _ hfin => ?_) trivial
  simp only [Finished, not_forall] at hfin
  obtain ⟨pid, hpid, hpc⟩ := hfin
  obtain ⟨s₁, h₁⟩ := Option.isSome_iff_exists.1 (step_isSome hpid hpc)
  exact ⟨pid, s₁, rfl, h₁⟩

end Progress

/-! ### After the launch -/

/-- What a finished launch leaves: an invalid pair has no slot; a valid one has a row of its own, or no slot when its
expert was full; as many are left without a slot as there are pairs over the capacity. -/
structure Bucketed [Zero B] (l : Launch B H) (s : DispatchState B H) : Prop where
  maskedM : ∀ e, s.maskedM e = (l.routed e).card
  invalid : ∀ pid < l.programs, ¬ l.Valid pid → slotOf l s pid = -1
  kept : ∀ pid < l.programs, slotOf l s pid ≠ -1 → ∃ slot < min (s.maskedM (l.expert pid)) l.disp.maxM,
    slotOf l s pid = slot ∧ s.paddedBuf (l.expert pid) slot = l.hiddenStates (l.token pid)
  separate : ∀ pid < l.programs, ∀ pid' < l.programs, l.expert pid = l.expert pid' →
    slotOf l s pid = slotOf l s pid' → slotOf l s pid ≠ -1 → pid = pid'
  dropped : ∀ e, ((l.routed e).filter (slotOf l s · = -1)).card = (l.routed e).card - l.disp.maxM
  zero : ∀ e m, s.maskedM e ≤ m → ∀ h, s.paddedBuf e m h = 0

section Finished

variable [Zero B] {l : Launch B H} {s : DispatchState B H} {pid : ℕ} {ticket : ℕ → ℕ}

theorem DispatchInv.returned (hi : DispatchInv l ticket s) (hf : Finished l s) (hpid : pid < l.programs) :
    (l.Valid pid ∧ ticket pid < l.disp.maxM ∧ slotOf l s pid = ticket pid ∧
        s.paddedBuf (l.expert pid) (ticket pid) = l.hiddenStates (l.token pid)) ∨
      (¬ (l.Valid pid ∧ ticket pid < l.disp.maxM) ∧ slotOf l s pid = -1) := by
  have hw := hi.written pid hpid
  rw [hf pid hpid] at hw
  by_cases hkept : l.Valid pid ∧ ticket pid < l.disp.maxM
  · rw [Written, if_pos hkept] at hw
    exact .inl ⟨hkept.1, hkept.2, hw⟩
  · rw [Written, if_neg hkept] at hw
    exact .inr ⟨hkept, hw⟩

theorem DispatchInv.bucketed (hi : DispatchInv l ticket s) (hf : Finished l s) : Bucketed l s where
  maskedM e := by rw [hi.taken.card, started_finished hf]
  invalid pid hpid hvalid := by
    obtain ⟨hv, -⟩ | ⟨-, hslot⟩ := hi.returned hf hpid
    · exact absurd hv hvalid
    · exact hslot
  kept pid hpid hslot := by
    obtain ⟨hvalid, hlt, hmap, hrow⟩ | ⟨-, hnone⟩ := hi.returned hf hpid
    · refine ⟨ticket pid, Nat.lt_min.2 ⟨?_, hlt⟩, hmap, hrow⟩
      exact hi.taken.lt pid (mem_started.2 ⟨hpid, hvalid, by simp [hf pid hpid]⟩)
    · exact absurd hnone hslot
  separate pid hpid pid' hpid' he hslots hslot := by
    obtain ⟨hvalid, hlt, hmap, -⟩ | ⟨-, hnone⟩ := hi.returned hf hpid
    case inr => exact absurd hnone hslot
    obtain ⟨hvalid', hlt', hmap', -⟩ | ⟨-, hnone⟩ := hi.returned hf hpid'
    case inr => exact absurd (hslots.trans hnone) hslot
    have hticket : ticket pid = ticket pid' := Int.ofNat.inj (hmap.symm.trans (hslots.trans hmap'))
    exact hi.taken.inj pid (mem_started.2 ⟨hpid, hvalid, by simp [hf pid hpid]⟩) pid'
      (mem_started.2 ⟨hpid', hvalid', by simp [hf pid' hpid']⟩) he hticket
  dropped e := by
    have hlate := hi.taken.card_late e l.disp.maxM
    rw [started_finished hf, hi.taken.card, started_finished hf] at hlate
    rw [← hlate]
    refine congrArg Finset.card (Finset.filter_congr fun pid hpid => ?_)
    obtain ⟨hrange, hvalid, -⟩ := Finset.mem_filter.1 hpid
    obtain ⟨-, hlt, hmap, -⟩ | ⟨hkept, hnone⟩ := hi.returned hf (Finset.mem_range.1 hrange)
    · refine iff_of_false (fun hnone => ?_) (Nat.not_le.2 hlt)
      rw [hmap] at hnone
      exact absurd hnone (by omega)
    · exact iff_of_true hnone (Nat.le_of_not_lt fun hlt => hkept ⟨hvalid, hlt⟩)
  zero := hi.zero

/-- **Every order of the programs' steps leaves a dispatched buffer.** -/
theorem bucketed_of_reachable (hr : Reachable (dispatchSystem l) always s) (hf : Finished l s) : Bucketed l s := by
  obtain ⟨_, hi⟩ := dispatchInv_invariant.holds hr
  exact hi.bucketed hf

namespace Bucketed

variable {t k : ℕ}

/-- A slot in the map leads to the token's own row. -/
theorem row (hd : Bucketed l s) (ht : t < l.T) (hk : k < l.disp.K) (hslot : 0 ≤ s.slotMap t k) :
    s.paddedBuf (l.topkIds t k).toNat (s.slotMap t k).toNat = l.hiddenStates t := by
  obtain ⟨hpid, htoken, hchoice⟩ := pid_of_choice ht hk
  have hkept := hd.kept _ hpid
  rw [slotOf, Launch.expert, Launch.expertId, htoken, hchoice] at hkept
  obtain ⟨slot, -, hmap, hrow⟩ := hkept (by omega)
  rw [hmap, Int.toNat_natCast, hrow]

/-- Nothing is dropped while no expert is over its capacity. -/
theorem slot_nonneg_iff (hd : Bucketed l s) (hcap : ∀ e < l.disp.E, (l.routed e).card ≤ l.disp.maxM) (ht : t < l.T)
    (hk : k < l.disp.K) : 0 ≤ s.slotMap t k ↔ 0 ≤ l.topkIds t k ∧ l.topkIds t k < (l.disp.E : ℤ) := by
  obtain ⟨hpid, htoken, hchoice⟩ := pid_of_choice ht hk
  have hid : l.expertId (t * l.disp.K + k) = l.topkIds t k := by rw [Launch.expertId, htoken, hchoice]
  have hmap : slotOf l s (t * l.disp.K + k) = s.slotMap t k := by rw [slotOf, htoken, hchoice]
  constructor
  · intro hslot
    by_contra hrange
    have hnone := hd.invalid _ hpid fun hvalid => hrange (by
      unfold Launch.Valid at hvalid
      rw [hid] at hvalid
      omega)
    omega
  · intro hrange
    have hvalid : l.Valid (t * l.disp.K + k) := by
      unfold Launch.Valid
      rw [hid]
      omega
    have hlt : (l.topkIds t k).toNat < l.disp.E := by omega
    -- no pair of this expert is without a slot
    have hcard := hd.dropped (l.topkIds t k).toNat
    rw [Nat.sub_eq_zero_of_le (hcap _ hlt), Finset.card_eq_zero] at hcard
    have hnone : slotOf l s (t * l.disp.K + k) ≠ -1 := by
      refine Finset.filter_eq_empty_iff.1 hcard (Finset.mem_filter.2 ⟨Finset.mem_range.2 hpid, hvalid, ?_⟩)
      rw [Launch.expert, hid]
    obtain ⟨slot, -, hslot, -⟩ := hd.kept _ hpid hnone
    omega

end Bucketed

end Finished

/-! ### Combine -/

/-- One call of `combine` after a dispatch; `toFloat32` and `toBfloat16` are the conversions of the kernel. -/
structure CombineLaunch (B F W : Type*) (H : ℕ) where
  numTokens : ℕ
  K : ℕ
  topkIds : ℕ → ℕ → ℤ
  topkWeights : ℕ → ℕ → W
  slotMap : ℕ → ℕ → ℤ
  expertOut : ℕ → ℕ → Fin H → B
  toFloat32 : B → F
  weightToFloat32 : W → F
  toBfloat16 : F → B

namespace CombineLaunch

variable {F W : Type*} [Zero F] [Add F] [Mul F]

/-- `acc` at one place after the choices of `ks`. -/
def acc (c : CombineLaunch B F W H) (t : ℕ) (h : Fin H) (ks : List ℕ) : F :=
  ks.foldl (fun acc k =>
    let slot := c.slotMap t k
    if 0 ≤ slot then
      acc + c.weightToFloat32 (c.topkWeights t k) * c.toFloat32 (c.expertOut (c.topkIds t k).toNat slot.toNat h)
    else acc) 0

/-- The program of token `p.1` and block `p.2`. -/
def program (c : CombineLaunch B F W H) (out : ℕ → Fin H → B) (p : ℕ × ℕ) : ℕ → Fin H → B := fun t h =>
  if t = p.1 ∧ p.2 * blockH H ≤ h.val ∧ h.val < p.2 * blockH H + blockH H then
    c.toBfloat16 (c.acc t h (List.range c.K))
  else out t h

def numHBlocks (H : ℕ) : ℕ := (H + blockH H - 1) / blockH H

def grid (c : CombineLaunch B F W H) : List (ℕ × ℕ) := List.range c.numTokens ×ˢ List.range (numHBlocks H)

/-- `combine`, with the programs in the order in which they store. -/
def combine [Zero B] (c : CombineLaunch B F W H) (order : List (ℕ × ℕ)) : ℕ → Fin H → B :=
  order.foldl c.program fun _ _ => 0

theorem foldl_program (c : CombineLaunch B F W H) (order : List (ℕ × ℕ))
    (out : ℕ → Fin H → B) (t : ℕ) (h : Fin H) :
    order.foldl c.program out t h =
      if (t, h.val / blockH H) ∈ order then c.toBfloat16 (c.acc t h (List.range c.K)) else out t h := by
  induction order generalizing out with
  | nil => rfl
  | cons p order ih =>
    rw [List.foldl_cons, ih]
    by_cases hmem : (t, h.val / blockH H) ∈ order
    · rw [if_pos hmem, if_pos (List.mem_cons_of_mem _ hmem)]
    · rw [if_neg hmem, program]
      refine ite_congr (propext ?_) (fun _ => rfl) fun _ => rfl
      rw [List.mem_cons, or_iff_left hmem, Prod.ext_iff]
      refine and_congr_right fun _ => ?_
      constructor
      · rintro ⟨hlo, hhi⟩
        exact Nat.div_eq_of_lt_le hlo (by rwa [Nat.add_one_mul])
      · intro hp
        rw [← hp, ← Nat.add_one_mul]
        exact ⟨Nat.div_mul_le_self _ _, Nat.lt_mul_of_div_lt (Nat.lt_succ_self _) (blockH_pos H)⟩

/-- The blocks cover the row, in whatever order the programs store. -/
theorem combine_eq [Zero B] (c : CombineLaunch B F W H) {order : List (ℕ × ℕ)} (ho : order.Perm c.grid) {t : ℕ}
    (ht : t < c.numTokens) (h : Fin H) : c.combine order t h = c.toBfloat16 (c.acc t h (List.range c.K)) := by
  have hpos := blockH_pos H
  have hblock : h.val / blockH H < numHBlocks H := by
    refine (Nat.div_lt_iff_lt_mul hpos).2 ?_
    have hh := h.isLt
    have hmod := Nat.div_add_mod' (H + blockH H - 1) (blockH H)
    have hlt := Nat.mod_lt (H + blockH H - 1) hpos
    unfold numHBlocks
    omega
  have hmem : (t, h.val / blockH H) ∈ order :=
    ho.mem_iff.2 (List.mem_product.2 ⟨List.mem_range.2 ht, List.mem_range.2 hblock⟩)
  rw [combine, foldl_program, if_pos hmem]

/-- What the expert rows and the slots have in common is all that the sum reads. -/
theorem acc_congr (c : CombineLaunch B F W H) (t : ℕ) (h : Fin H) (row : ℕ → Fin H → B) (ks : List ℕ)
    (hrow : ∀ k ∈ ks, 0 ≤ c.slotMap t k → c.expertOut (c.topkIds t k).toNat (c.slotMap t k).toNat = row k) :
    c.acc t h ks = ks.foldl (fun acc k =>
      if 0 ≤ c.slotMap t k then acc + c.weightToFloat32 (c.topkWeights t k) * c.toFloat32 (row k h) else acc) 0 := by
  unfold acc
  refine List.foldl_ext _ _ _ fun acc k hk => ?_
  dsimp only
  split
  case isTrue hslot => rw [hrow k hk hslot]
  case isFalse => rfl

/-- `c` combines the rows that the experts made of the buffer in `s`; `expertRow e` is what expert `e` makes of a row.
-/
structure Combines (c : CombineLaunch B F W H) (l : Launch B H) (s : DispatchState B H)
    (expertRow : ℕ → (Fin H → B) → Fin H → B) : Prop where
  numTokens : c.numTokens = l.T
  K : c.K = l.disp.K
  topkIds : c.topkIds = l.topkIds
  slotMap : c.slotMap = s.slotMap
  expertOut : ∀ e m, c.expertOut e m = expertRow e (s.paddedBuf e m)

/-- The weighted sum of what the experts make of token `t`, over its choices that have a row. -/
def keptSum (c : CombineLaunch B F W H) (l : Launch B H) (s : DispatchState B H)
    (expertRow : ℕ → (Fin H → B) → Fin H → B) (t : ℕ) (h : Fin H) : F :=
  (List.range l.disp.K).foldl (fun acc k =>
    if 0 ≤ s.slotMap t k then
      acc + c.weightToFloat32 (c.topkWeights t k) *
        c.toFloat32 (expertRow (l.topkIds t k).toNat (l.hiddenStates t) h)
    else acc) 0

end CombineLaunch

section Launches

variable [Zero B] {F W : Type*} [Zero F] [Add F] [Mul F] {l : Launch B H} {s s' : DispatchState B H}

/-- After a dispatch every slot that is read leads to the token's own row. -/
theorem Bucketed.combine_eq (hd : Bucketed l s) {c : CombineLaunch B F W H}
    {expertRow : ℕ → (Fin H → B) → Fin H → B} (hc : c.Combines l s expertRow) {order : List (ℕ × ℕ)}
    (ho : order.Perm c.grid) {t : ℕ} (ht : t < l.T) (h : Fin H) :
    c.combine order t h = c.toBfloat16 (c.keptSum l s expertRow t h) := by
  rw [c.combine_eq ho (hc.numTokens ▸ ht)]
  congr 1
  rw [c.acc_congr t h fun k => expertRow (l.topkIds t k).toNat (l.hiddenStates t)]
  · rw [CombineLaunch.keptSum, hc.K, hc.slotMap]
  · intro k hk hslot
    rw [hc.K, List.mem_range] at hk
    rw [hc.slotMap] at hslot
    rw [hc.expertOut, hc.topkIds, hc.slotMap, hd.row ht hk hslot]

theorem remaining_initial (h : (dispatchSystem l).initial s) : remaining l s = l.programs * (H + 3) := by
  simp [remaining, h.1, DispatchPc.remaining]

/-- **Whatever the order of the steps, a launch is bounded, can always be run to its end, and leaves a dispatched
buffer**: what the experts make of its rows is combined, in any order of the stores, to the weighted sum of every
token over the choices it has a row for. -/
theorem local_dispatch {pids : List ℕ} {s s' : DispatchState B H} (hs : (dispatchSystem l).initial s)
    (hrun : run (dispatchSystem l) always pids s = some s') :
    pids.length ≤ l.programs * (H + 3) ∧
      (∃ pids' s'', run (dispatchSystem l) always (pids ++ pids') s = some s'' ∧ Finished l s'') ∧
      (Finished l s' → Bucketed l s' ∧
        ∀ (c : CombineLaunch B F W H) (expertRow : ℕ → (Fin H → B) → Fin H → B),
          c.Combines l s' expertRow →
          ∀ order : List (ℕ × ℕ), order.Perm c.grid → ∀ t < l.T, ∀ h : Fin H,
            c.combine order t h = c.toBfloat16 (c.keptSum l s' expertRow t h)) := by
  have hbucketed : Finished l s' → Bucketed l s' := bucketed_of_reachable ((Reachable.initial hs).of_run hrun)
  refine ⟨?_, ?_, fun hf => ⟨hbucketed hf, fun c expertRow hc order ho t ht h =>
    (hbucketed hf).combine_eq hc ho ht h⟩⟩
  · have hlength := run_length (fun _ _ _ h => remaining_step h) hrun
    rw [remaining_initial hs] at hlength
    exact Nat.le_trans (Nat.le_add_right _ _) hlength
  · obtain ⟨pids', s'', hrun', hf⟩ := exists_finished (l := l) s'
    refine ⟨pids', s'', ?_, hf⟩
    rw [run_append, hrun]
    exact hrun'

/-- Two tokens for one place; the second one in the grid comes first. -/
def fullLaunch : Launch ℤ 1 where
  disp := { E := 2, maxM := 1, K := 1, maxT := 2 }
  T := 2
  hiddenStates t _ := t + 5
  topkIds _ _ := 0
  fits := Nat.le_refl 2

def clearedState : DispatchState ℤ 1 := ⟨fun _ => .start, fun _ => 0, fun _ _ => -1, fun _ _ _ => 0⟩

/-- Expert 0 doubles a row; the weight of every choice is 3. -/
def fullCombine (s : DispatchState ℤ 1) : CombineLaunch ℤ ℤ ℤ 1 where
  numTokens := 2
  K := 1
  topkIds := fullLaunch.topkIds
  topkWeights _ _ := 3
  slotMap := s.slotMap
  expertOut e m h := 2 * s.paddedBuf e m h
  toFloat32 := id
  weightToFloat32 := id
  toBfloat16 := id

/-- The token without a row gets 0, the other one `3 * (2 * 6)`. -/
theorem local_dispatch_full : ∃ s, Bucketed fullLaunch s ∧ s.slotMap 0 0 = -1 ∧ s.slotMap 1 0 = 0 ∧
    (fullCombine s).combine [(1, 0), (0, 0)] 0 0 = 0 ∧ (fullCombine s).combine [(1, 0), (0, 0)] 1 0 = 36 := by
  have hcheck : (run (dispatchSystem fullLaunch) always [1, 0, 1, 0, 1, 1] clearedState).map (fun s =>
      decide (Finished fullLaunch s) && decide (s.slotMap 0 0 = -1 ∧ s.slotMap 1 0 = 0)) = some true := by
    decide
  obtain ⟨s, hrun, hP⟩ := Option.map_eq_some_iff.1 hcheck
  rw [Bool.and_eq_true, decide_eq_true_eq, decide_eq_true_eq] at hP
  obtain ⟨hf, hnone, hslot⟩ := hP
  have hinitial : (dispatchSystem fullLaunch).initial clearedState :=
    ⟨fun _ => rfl, fun _ => rfl, fun _ _ _ => rfl, fun _ _ _ => rfl⟩
  obtain ⟨hbucketed, hcombine⟩ := (local_dispatch (F := ℤ) (W := ℤ) hinitial hrun).2.2 hf
  have hc : (fullCombine s).Combines fullLaunch s fun _ x h => 2 * x h :=
    ⟨rfl, rfl, rfl, rfl, fun _ _ => rfl⟩
  have horder : [((1 : ℕ), (0 : ℕ)), (0, 0)].Perm (List.range 2 ×ˢ List.range (CombineLaunch.numHBlocks 1)) := by
    decide
  refine ⟨s, hbucketed, hnone, hslot, ?_, ?_⟩
  · rw [hcombine (fullCombine s) _ hc _ horder 0 (by decide), CombineLaunch.keptSum]
    simp [fullLaunch, fullCombine, hnone]
  · rw [hcombine (fullCombine s) _ hc _ horder 1 (by decide), CombineLaunch.keptSum]
    simp [fullLaunch, fullCombine, hslot]

end Launches

end NanoEngine.Experts
