import Mathlib.Algebra.Group.Action.Defs
import Mathlib.Algebra.Order.BigOperators.Group.List
import Mathlib.Tactic.Linarith
import NanoEngine.Experts.Rebalance

/-!
# NanoEngine.Experts.Packing — every pack gets the same number of groups

* `PackInv`, `packGroup_spec`: what the packing loop has placed, and one group more.
* `balancedPacking_spec`: pack and rank of the groups, read as one number, permute the groups.
-/

namespace NanoEngine.Experts

open Updates

theorem sum_set_succ {l : List ℕ} {i : ℕ} (hi : i < l.length) : (l.set i (l.getD i 0 + 1)).sum = l.sum + 1 := by
  induction l generalizing i with
  | nil => exact absurd hi (Nat.not_lt_zero i)
  | cons n l ih =>
    cases i with
    | zero =>
      rw [List.set_cons_zero, List.sum_cons, List.sum_cons, List.getD_cons_zero]
      omega
    | succ i =>
      rw [List.set_cons_succ, List.sum_cons, List.sum_cons, List.getD_cons_succ, ih (Nat.lt_of_succ_lt_succ hi)]
      omega

theorem getD_set_succ {l : List ℕ} {i : ℕ} (hi : i < l.length) (j : ℕ) :
    (l.set i (l.getD i 0 + 1)).getD j 0 = if j = i then l.getD i 0 + 1 else l.getD j 0 := by
  rw [List.getD_eq_getElem?_getD]
  split_ifs with hj
  · rw [hj, List.getElem?_set_self hi, Option.getD_some]
  · rw [List.getElem?_set_ne (Ne.symm hj), ← List.getD_eq_getElem?_getD]

/-- The loop has placed the groups `done`, with different ranks in every pack. -/
structure PackInv (numGroups numPacks groupsPerPack : ℕ) (done : List ℕ) (l : PackLoop) : Prop where
  length_items : l.packItems.length = numPacks
  length_placed : l.placed.length = numGroups
  placed_iff : ∀ g : ℕ, (∃ x, l.placed[g]? = some (some x)) ↔ g ∈ done
  lt : ∀ g p r : ℕ, l.placed[g]? = some (some (p, r)) → p < numPacks ∧ r < l.packItems.getD p 0
  inj : ∀ (g g' : ℕ) (x : ℕ × ℕ), l.placed[g]? = some (some x) → l.placed[g']? = some (some x) → g = g'
  le : ∀ p, l.packItems.getD p 0 ≤ groupsPerPack
  sum : l.packItems.sum = done.length

variable {numGroups numPacks groupsPerPack : ℕ} {done : List ℕ} {l : PackLoop}

/-- There is room while not all groups are placed. -/
theorem PackInv.room (h : PackInv numGroups numPacks groupsPerPack done l)
    (hdone : done.length < numPacks * groupsPerPack) :
    ∃ p < numPacks, l.packItems.getD p 0 < groupsPerPack := by
  by_contra hfull
  push Not at hfull
  have hle : l.packItems.length • groupsPerPack ≤ l.packItems.sum := by
    refine List.card_nsmul_le_sum _ _ fun n hn => ?_
    obtain ⟨i, hi, rfl⟩ := List.mem_iff_getElem.1 hn
    have := hfull i (h.length_items ▸ hi)
    rwa [List.getD_eq_getElem?_getD, List.getElem?_eq_getElem hi, Option.getD_some] at this
  rw [h.sum, h.length_items, smul_eq_mul] at hle
  omega

theorem packGroup_spec (weight : List ℚ) (h : PackInv numGroups numPacks groupsPerPack done l)
    (hdone : done.length < numPacks * groupsPerPack) {g : ℕ} (hg : g < numGroups) (hnew : g ∉ done) :
    ∃ l', packGroup weight numPacks groupsPerPack l g = some l' ∧
      PackInv numGroups numPacks groupsPerPack (done ++ [g]) l' := by
  obtain ⟨q, hq, hroom⟩ := h.room hdone
  unfold packGroup
  dsimp only
  -- the lightest pack with room; there is one, for the packs together have room for every group
  cases hmin : ((List.range numPacks).filter fun i => decide (l.packItems.getD i 0 < groupsPerPack)).argmin
      fun i => l.packWeights.getD i 0 with
  | none =>
    have hmem : q ∈ (List.range numPacks).filter fun i => decide (l.packItems.getD i 0 < groupsPerPack) :=
      List.mem_filter.2 ⟨List.mem_range.2 hq, decide_eq_true hroom⟩
    rw [List.argmin_eq_none.1 hmin] at hmem
    cases hmem
  | some pack =>
    have hmem := List.mem_filter.1 (List.argmin_mem hmin)
    have hpack : pack < numPacks := List.mem_range.1 hmem.1
    have hlt : l.packItems.getD pack 0 < groupsPerPack := of_decide_eq_true hmem.2
    have hnone : ¬ ∃ x, l.placed[g]? = some (some x) := fun hx => hnew ((h.placed_iff g).1 hx)
    have hself : (l.placed.set g (some (pack, l.packItems.getD pack 0)))[g]? =
      some (some (pack, l.packItems.getD pack 0)) :=
      List.getElem?_set_self (h.length_placed.symm ▸ hg)
    have hother : ∀ g', g' ≠ g → (l.placed.set g (some (pack, l.packItems.getD pack 0)))[g']? = l.placed[g']? :=
      fun g' hne => List.getElem?_set_ne hne.symm
    have hitems : ∀ p, (l.packItems.set pack (l.packItems.getD pack 0 + 1)).getD p 0 =
        if p = pack then l.packItems.getD pack 0 + 1 else l.packItems.getD p 0 :=
      getD_set_succ (h.length_items.symm ▸ hpack)
    refine ⟨_, rfl, ⟨?_, ?_, fun g' => ?_, fun g' p r hp => ?_,
      fun g₁ g₂ x h₁ h₂ => ?_, fun p => ?_, ?_⟩⟩
    · rw [List.length_set, h.length_items]
    · rw [List.length_set, h.length_placed]
    · rw [List.mem_append, List.mem_singleton]
      rcases eq_or_ne g' g with rfl | hne
      · exact ⟨fun _ => .inr rfl, fun _ => ⟨_, hself⟩⟩
      · rw [hother g' hne, h.placed_iff g']
        tauto
    · rw [hitems]
      rcases eq_or_ne g' g with rfl | hne
      · obtain ⟨rfl, rfl⟩ := Prod.mk.inj (Option.some.inj (Option.some.inj (hself.symm.trans hp)))
        exact ⟨hpack, by rw [if_pos rfl]; exact Nat.lt_succ_self _⟩
      · obtain ⟨hp', hr⟩ := h.lt g' p r ((hother g' hne).symm.trans hp)
        refine ⟨hp', ?_⟩
        split_ifs with heq
        · rw [← heq]
          exact Nat.lt_succ_of_lt hr
        · exact hr
    -- no earlier group is at this place, which is past all that the pack holds
    · have hfresh : ∀ g', g' ≠ g → l.placed[g']? ≠ some (some (pack, l.packItems.getD pack 0)) :=
        fun g' _ hp =>
        absurd (h.lt g' _ _ hp).2 (Nat.lt_irrefl _)
      rcases eq_or_ne g₁ g with rfl | hne₁
      · rcases eq_or_ne g₂ g₁ with rfl | hne₂
        · rfl
        · rw [← Option.some.inj (Option.some.inj (hself.symm.trans h₁)), hother g₂ hne₂] at h₂
          exact absurd h₂ (hfresh g₂ hne₂)
      · rcases eq_or_ne g₂ g with rfl | hne₂
        · rw [← Option.some.inj (Option.some.inj (hself.symm.trans h₂)), hother g₁ hne₁] at h₁
          exact absurd h₁ (hfresh g₁ hne₁)
        · exact h.inj g₁ g₂ x ((hother g₁ hne₁).symm.trans h₁) ((hother g₂ hne₂).symm.trans h₂)
    · rw [hitems]
      split_ifs
      · exact hlt
      · exact h.le p
    · rw [sum_set_succ (h.length_items.symm ▸ hpack), h.sum, List.length_append, List.length_singleton]

theorem packGroups_spec (weight : List ℚ) (h : PackInv numGroups numPacks groupsPerPack done l) (groups : List ℕ)
    (hnodup : (done ++ groups).Nodup) (hlt : ∀ g ∈ groups, g < numGroups)
    (hlen : (done ++ groups).length ≤ numPacks * groupsPerPack) :
    ∃ l', groups.foldlM (packGroup weight numPacks groupsPerPack) l = some l' ∧
      PackInv numGroups numPacks groupsPerPack (done ++ groups) l' := by
  induction groups generalizing done l with
  | nil => exact ⟨l, rfl, by rwa [List.append_nil]⟩
  | cons g groups ih =>
    have hnew : g ∉ done := fun hin => (List.disjoint_of_nodup_append hnodup) hin List.mem_cons_self
    rw [List.length_append, List.length_cons] at hlen
    obtain ⟨l₁, hstep, h₁⟩ := packGroup_spec weight h (by omega) (hlt g List.mem_cons_self) hnew
    rw [← List.singleton_append, ← List.append_assoc] at hnodup ⊢
    obtain ⟨l', hfold, h'⟩ := ih h₁ hnodup (fun g' hg' => hlt g' (List.mem_cons_of_mem g hg'))
      (by simp only [List.length_append, List.length_singleton]; omega)
    refine ⟨l', ?_, h'⟩
    rw [List.singleton_append, List.foldlM_cons, hstep]
    exact hfold

theorem packInv_start (numGroups numPacks groupsPerPack : ℕ) :
    PackInv numGroups numPacks groupsPerPack []
      ⟨List.replicate numPacks 0, List.replicate numPacks 0, List.replicate numGroups none⟩ := by
  have hnone : ∀ (g : ℕ) (x : ℕ × ℕ), (List.replicate numGroups (none : Option (ℕ × ℕ)))[g]? ≠
    some (some x) := by
    intro g x h
    cases (List.eq_of_mem_replicate (List.mem_of_getElem? h))
  refine ⟨List.length_replicate, List.length_replicate, fun g => ?_, fun g p r h => absurd h (hnone g _),
    fun g g' x h => absurd h (hnone g _), fun p => ?_, by simp⟩
  · exact ⟨fun ⟨x, h⟩ => absurd h (hnone g x), fun h => absurd h List.not_mem_nil⟩
  · rw [List.getD_eq_getElem?_getD, List.getElem?_replicate]
    split_ifs <;> simp

theorem slot_lt {p r n k : ℕ} (hp : p < n) (hr : r < k) : p * k + r < n * k := by
  calc p * k + r < p * k + k := Nat.add_lt_add_left hr _
    _ = (p + 1) * k := (Nat.succ_mul p k).symm
    _ ≤ n * k := Nat.mul_le_mul_right k hp

theorem slot_inj {p r p' r' k : ℕ} (hr : r < k) (hr' : r' < k) (h : p * k + r = p' * k + r') : p = p' ∧ r = r' := by
  have hdiv : ∀ {a b : ℕ}, b < k → (a * k + b) / k = a ∧ (a * k + b) % k = b := by
    intro a b hb
    rw [Nat.mul_comm a k, Nat.mul_add_div (Nat.zero_lt_of_lt hb), Nat.mul_add_mod,
      Nat.div_eq_of_lt hb, Nat.mod_eq_of_lt hb]
    exact ⟨rfl, rfl⟩
  exact ⟨(hdiv hr).1.symm.trans (h ▸ (hdiv hr').1), (hdiv hr).2.symm.trans (h ▸ (hdiv hr').2)⟩

/-- Every group gets a pack, and pack and rank, read as one number, permute the groups. -/
theorem balancedPacking_spec (c : Choices) (weight : List ℚ) (hpacks : 0 < numPacks)
    (hdiv : weight.length % numPacks = 0) :
    ∃ packs, balancedPacking c weight numPacks = some packs ∧ packs.length = weight.length ∧
      (packs.map fun x => x.1 * (weight.length / numPacks) + x.2).Perm (List.range weight.length) := by
  have htotal : numPacks * (weight.length / numPacks) = weight.length :=
    Nat.mul_div_cancel' (Nat.dvd_of_mod_eq_zero hdiv)
  have hsource : balancedPacking c weight numPacks = if _ then _ else _ := if_neg (by omega)
  rw [hsource]
  split_ifs with hone
  · refine ⟨_, rfl, by simp, ?_⟩
    rw [hone, List.map_map]
    simp [Function.comp_def]
  · have hperm := c.sort_perm weight
    obtain ⟨l, hfold, h⟩ := packGroups_spec weight
      (packInv_start weight.length numPacks (weight.length / numPacks)) (c.sortDescending weight)
      (by simpa using hperm.nodup_iff.2 List.nodup_range) (fun g hg => List.mem_range.1 (hperm.mem_iff.1 hg))
      (by simpa [hperm.length_eq] using htotal.ge)
    rw [List.nil_append] at h
    -- every group is placed, since the loop has gone through all of them
    have hall : ∀ o ∈ l.placed, o.isSome := by
      intro o ho
      obtain ⟨g, hg⟩ := List.mem_iff_getElem?.1 ho
      have hlt : g < weight.length := h.length_placed ▸ (List.getElem?_eq_some_iff.1 hg).1
      obtain ⟨x, hx⟩ := (h.placed_iff g).2 (hperm.mem_iff.2 (List.mem_range.2 hlt))
      rw [Option.some.inj (hg.symm.trans hx)]
      rfl
    obtain ⟨packs, hpacks'⟩ : ∃ packs : List (ℕ × ℕ), packs.map some = l.placed :=
      ⟨l.placed.pmap Option.get hall, by simp [List.map_pmap]⟩
    have hlen : packs.length = weight.length := by rw [← h.length_placed, ← hpacks', List.length_map]
    have hget : ∀ {g : ℕ} {x : ℕ × ℕ}, packs[g]? = some x → l.placed[g]? = some (some x) := by
      intro g x hx
      rw [← hpacks', List.getElem?_map, hx]
      rfl
    have hrank : ∀ {g p r : ℕ}, packs[g]? = some (p, r) →
      p < numPacks ∧ r < weight.length / numPacks := fun hx =>
      (h.lt _ _ _ (hget hx)).imp_right fun hr => hr.trans_le (h.le _)
    refine ⟨packs, ?_, hlen, perm_range_of_nodup ?_ ?_ ?_⟩
    · dsimp only
      rw [hfold, Option.bind_some, ← hpacks']
      exact mapM_eq_some_iff.2 (List.map_id _)
    · refine List.nodup_iff_getElem?_ne_getElem?.2 fun i j hij hj heq => ?_
      rw [List.length_map] at hj
      obtain ⟨⟨p, r⟩, hx⟩ : ∃ x, packs[i]? = some x := ⟨_, List.getElem?_eq_getElem (hij.trans hj)⟩
      obtain ⟨⟨p', r'⟩, hx'⟩ : ∃ x, packs[j]? = some x := ⟨_, List.getElem?_eq_getElem hj⟩
      rw [List.getElem?_map, List.getElem?_map, hx, hx'] at heq
      obtain ⟨rfl, rfl⟩ := slot_inj (hrank hx).2 (hrank hx').2 (Option.some.inj heq)
      exact hij.ne (h.inj i j (p, r) (hget hx) (hget hx'))
    · intro k hk
      obtain ⟨⟨p, r⟩, hmem, rfl⟩ := List.mem_map.1 hk
      obtain ⟨g, hx⟩ := List.mem_iff_getElem?.1 hmem
      obtain ⟨hp, hr⟩ := hrank hx
      exact (slot_lt hp hr).trans_eq htotal
    · rw [List.length_map, hlen]

end NanoEngine.Experts
