import NanoEngine.Cache.PoolRuns

/-!
# NanoEngine.Cache.EnsureBlocks — when `ensure_blocks` is all or nothing

* `AllOrNothing`: an error leaves the pool as it was, a success extends the table of the sequence far enough.
* `Enough`: the blocks that will be popped are there when the first one is taken, or nothing is taken at all.
* `allOrNothing_iff`: the one is the other, in every pool.
-/

namespace NanoEngine

open Transition

namespace BlockPool

/-- Two pools with the same free blocks, references, tables, states and index. -/
structure SamePool (p p' : BlockPool) : Prop where
  freeBlocks : ∀ b, b ∈ p'.freeBlocks ↔ b ∈ p.freeBlocks
  refCount : ∀ b, (p'.blocks b).refCount = (p.blocks b).refCount
  seqBlocks : p'.seqBlocks = p.seqBlocks
  state : ∀ b, (p'.blocks b).state = (p.blocks b).state
  hashToBlockId : p'.hashToBlockId = p.hashToBlockId

theorem SamePool.refl (p : BlockPool) : SamePool p p := ⟨fun _ => Iff.rfl, fun _ => rfl, rfl, fun _ => rfl, rfl⟩

/-- `fresh_needed`. -/
def freshNeeded (plan : List (Option ℕ)) : ℕ := (plan.filter Option.isNone).length

section

variable [Xxh3]

structure AllOrNothing (p : BlockPool) (seqId : ℕ) (tokenIds : List ℤ) (tokens : ℤ)
    (usePrefixCache : Bool) : Prop where
  error : ∀ e p', p.ensureBlocks seqId tokenIds tokens usePrefixCache = (.error e, p') → SamePool p p'
  ok : ∀ out p', p.ensureBlocks seqId tokenIds tokens usePrefixCache = (.ok out, p') →
    p'.seqBlocks seqId = some out ∧ p.numBlocksForTokens tokens ≤ out.length ∧ p.table seqId <+: out

/-- A table that grows finds all blocks or none.  For a new table the fresh blocks of the plan are missing at once, or
they are there also without the free blocks that the plan reuses. -/
def Enough (p : BlockPool) (seqId : ℕ) (tokenIds : List ℤ) (tokens : ℤ) (usePrefixCache : Bool) : Prop :=
  let needed := p.numBlocksForTokens tokens
  if p.hasSeq seqId then needed ≤ (p.table seqId).length + p.freeBlocks.length ∨ p.freeBlocks = []
  else
    let plan := p.planNewBlocks tokenIds needed usePrefixCache
    p.freeBlocks.length < freshNeeded plan ∨
      freshNeeded plan ≤ (p.freeBlocks.filter fun b => decide (some b ∉ plan)).length

end

variable {p : BlockPool} {seqId n k : ℕ}

/-! ### Fresh blocks one after another -/

theorem allocateFreshWithEviction_nil (h : p.freeBlocks = []) :
    p.allocateFreshWithEviction = (.error .outOfKvCacheBlocks, p) := by
  unfold allocateFreshWithEviction
  rw [h]

theorem allocateFreshWithEviction_cons {b : ℕ} {free : List ℕ} (h : p.freeBlocks = b :: free) :
    ∃ evicted p', p.allocateFreshWithEviction = (.ok (b, evicted), p') ∧ p'.freeBlocks = free ∧
      p'.seqBlocks = p.seqBlocks := by
  cases heq : p.allocateFreshWithEviction with
  | mk r p' =>
    cases r with
    | error e =>
      unfold allocateFreshWithEviction at heq
      rw [h] at heq
      cases heq
    | ok x =>
      obtain ⟨c, evicted⟩ := x
      have hfresh := (allocateFreshWithEviction_fresh heq).1
      have hcons := hfresh.freeBlocks
      rw [h] at hcons
      obtain ⟨rfl, rfl⟩ := List.cons.inj hcons
      exact ⟨evicted, p', rfl, rfl, hfresh.seqBlocks⟩

/-- With enough free blocks the table grows by the first ones. -/
theorem growLoop_ok (h : n ≤ p.freeBlocks.length) :
    ∃ p', growLoop seqId n p = (.ok (), p') ∧ p'.table seqId = p.table seqId ++ p.freeBlocks.take n ∧
      (p.hasSeq seqId = true → p'.hasSeq seqId = true) := by
  induction n generalizing p with
  | zero => exact ⟨p, rfl, by simp, id⟩
  | succ n ih =>
    cases hfree : p.freeBlocks with
    | nil =>
      rw [hfree] at h
      cases h
    | cons b free =>
      obtain ⟨evicted, p₁, halloc, hfree₁, htab₁⟩ := allocateFreshWithEviction_cons hfree
      rw [growLoop, halloc]
      dsimp only
      obtain ⟨p₂, hloop, htab₂, hseq₂⟩ := ih (p := { p₁ with
        seqBlocks := Function.update p₁.seqBlocks seqId (some ((p₁.seqBlocks seqId).getD [] ++ [b])) }) (by
          rw [hfree, List.length_cons] at h
          rw [hfree₁]
          omega)
      refine ⟨p₂, hloop, ?_, fun _ => hseq₂ (by simp [hasSeq])⟩
      rw [htab₂, hfree₁, List.take_succ_cons]
      simp [table, htab₁]

/-- Without, all of them are taken before the error. -/
theorem growLoop_error (h : p.freeBlocks.length < n) :
    ∃ e p', growLoop seqId n p = (.error e, p') ∧ p'.freeBlocks = [] ∧ (p.freeBlocks = [] → p' = p) := by
  induction n generalizing p with
  | zero => cases h
  | succ n ih =>
    cases hfree : p.freeBlocks with
    | nil =>
      rw [growLoop, allocateFreshWithEviction_nil hfree]
      exact ⟨_, p, rfl, hfree, fun _ => rfl⟩
    | cons b free =>
      obtain ⟨evicted, p₁, halloc, hfree₁, -⟩ := allocateFreshWithEviction_cons hfree
      rw [growLoop, halloc]
      dsimp only
      obtain ⟨e, p₂, hloop, hfree₂, -⟩ := ih (p := { p₁ with
        seqBlocks := Function.update p₁.seqBlocks seqId (some ((p₁.seqBlocks seqId).getD [] ++ [b])) }) (by
          rw [hfree, List.length_cons] at h
          rw [hfree₁]
          omega)
      exact ⟨e, p₂, hloop, hfree₂, fun hnil => by cases hnil⟩

theorem growExisting_ok {needed : ℕ} {p' : BlockPool}
    (h : growLoop seqId (needed - (p.table seqId).length) p = (.ok (), p')) :
    p.growExisting seqId needed = (.ok (p'.table seqId), p') := by
  unfold table at h
  unfold growExisting
  rw [h]
  rfl

theorem growExisting_error {needed : ℕ} {e : PyErr} {p' : BlockPool}
    (h : growLoop seqId (needed - (p.table seqId).length) p = (.error e, p')) :
    p.growExisting seqId needed = (.error e, p') := by
  unfold table at h
  unfold growExisting
  rw [h]

theorem takePlan_fresh_ok (h : k ≤ p.freeBlocks.length) :
    ∃ p', takePlan (List.replicate k none) p = (.ok (p.freeBlocks.take k), p') := by
  induction k generalizing p with
  | zero => exact ⟨p, rfl⟩
  | succ k ih =>
    cases hfree : p.freeBlocks with
    | nil =>
      rw [hfree] at h
      cases h
    | cons b free =>
      obtain ⟨evicted, p₁, halloc, hfree₁, -⟩ := allocateFreshWithEviction_cons hfree
      obtain ⟨p₂, htake⟩ := ih (p := p₁) (by
        rw [hfree, List.length_cons] at h
        rw [hfree₁]
        omega)
      rw [List.replicate_succ, takePlan, halloc]
      dsimp only
      rw [htake, hfree₁]
      exact ⟨p₂, rfl⟩

theorem takePlan_fresh_error (h : p.freeBlocks.length < k) :
    ∃ e p', takePlan (List.replicate k none) p = (.error e, p') ∧ p'.freeBlocks = [] := by
  induction k generalizing p with
  | zero => cases h
  | succ k ih =>
    rw [List.replicate_succ, takePlan]
    cases hfree : p.freeBlocks with
    | nil =>
      rw [allocateFreshWithEviction_nil hfree]
      exact ⟨_, p, rfl, hfree⟩
    | cons b free =>
      obtain ⟨evicted, p₁, halloc, hfree₁, -⟩ := allocateFreshWithEviction_cons hfree
      obtain ⟨e, p₂, htake, hfree₂⟩ := ih (p := p₁) (by
        rw [hfree, List.length_cons] at h
        rw [hfree₁]
        omega)
      rw [halloc]
      dsimp only
      rw [htake]
      exact ⟨e, p₂, rfl, hfree₂⟩

/-! ### A plan: blocks of the index, then fresh ones -/

/-- Retaining the blocks of the index takes those of them that are free off the free list. -/
theorem takePlan_hits {hits : List ℕ} (hlt : ∀ b ∈ hits, b < p.numBlocks) (rest : List (Option ℕ)) :
    ∃ p₁, p₁.freeBlocks = p.freeBlocks.filter (fun b => decide (b ∉ hits)) ∧
      (∀ e p', takePlan rest p₁ = (.error e, p') → takePlan (hits.map some ++ rest) p = (.error e, p')) ∧
      ∀ out p', takePlan rest p₁ = (.ok out, p') →
        takePlan (hits.map some ++ rest) p = (.ok (hits ++ out), p') := by
  induction hits generalizing p with
  | nil => exact ⟨p, by simp, fun e p' h => h, fun out p' h => h⟩
  | cons b hits ih =>
    have hb : b < p.numBlocks := hlt b List.mem_cons_self
    have hretain : p.retainBlock b = (.ok (),
      { p.setBlock b { p.blocks b with refCount := (p.blocks b).refCount + 1 } with
        freeBlocks := p.freeBlocks.filter (fun id => decide (id ≠ b)) }) := by
      unfold retainBlock
      rw [if_pos hb]
    obtain ⟨p₁, hfree₁, herror, hok⟩ := ih (p := { p.setBlock b { p.blocks b with
      refCount := (p.blocks b).refCount + 1 } with freeBlocks := p.freeBlocks.filter (fun id => decide (id ≠ b)) })
      fun c hc => hlt c (List.mem_cons_of_mem b hc)
    refine ⟨p₁, ?_, fun e p' h => ?_, fun out p' h => ?_⟩
    · rw [hfree₁, List.filter_filter]
      refine List.filter_congr fun c _ => ?_
      by_cases hcb : c = b <;> simp [hcb]
    · rw [List.map_cons, List.cons_append, takePlan, hretain]
      dsimp only
      rw [herror e p' h]
    · rw [List.map_cons, List.cons_append, takePlan, hretain]
      dsimp only
      rw [hok out p' h, List.cons_append]

section Ensure

variable [Xxh3]

theorem planLoop_hits (p : BlockPool) (tokenIds : List ℤ) (n blockIdx : ℕ) (h : ℤ) (cacheMiss : Bool) :
    ∃ (hits : List ℕ) (k : ℕ), p.planLoop tokenIds n blockIdx h cacheMiss =
      hits.map some ++ List.replicate k none ∧
      (∀ b ∈ hits, b < p.numBlocks) ∧ hits.length + k = n := by
  induction n generalizing blockIdx h cacheMiss with
  | zero => exact ⟨[], 0, rfl, by simp, rfl⟩
  | succ n ih =>
    rw [planLoop]
    dsimp only
    split
    case isFalse => exact ⟨[], n + 1, by simp [planLoop_miss, List.replicate_succ], by simp, by simp⟩
    case isTrue =>
      split
      case h_2 => exact ⟨[], n + 1, by simp [planLoop_miss, List.replicate_succ], by simp, by simp⟩
      case h_1 b hlookup =>
        obtain ⟨hits, k, heq, hlt, hlen⟩ := ih (blockIdx + 1)
          (computeBlockHash (blockView p.blockSize tokenIds blockIdx) h) false
        refine ⟨b :: hits, k, by rw [heq]; rfl, ?_, by rw [List.length_cons]; omega⟩
        intro c hc
        rcases List.mem_cons.1 hc with rfl | hc
        · exact (lookupReadyBlock_some hlookup).1
        · exact hlt c hc

variable {tokenIds : List ℤ} {tokens : ℤ} {usePrefixCache : Bool}

/-- An error that has emptied the free list is no clean one. -/
theorem not_allOrNothing {e : PyErr} {p' : BlockPool} (hne : p.freeBlocks ≠ []) (hfree : p'.freeBlocks = [])
    (h : p.ensureBlocks seqId tokenIds tokens usePrefixCache = (.error e, p')) :
    ¬ p.AllOrNothing seqId tokenIds tokens usePrefixCache := by
  intro hall
  obtain ⟨b, hb⟩ := List.exists_mem_of_ne_nil _ hne
  have hmem := ((hall.error e p' h).freeBlocks b).2 hb
  rw [hfree] at hmem
  cases hmem

theorem allOrNothing_of_error {e : PyErr} (h : p.ensureBlocks seqId tokenIds tokens usePrefixCache = (.error e, p)) :
    p.AllOrNothing seqId tokenIds tokens usePrefixCache where
  error := fun e' p' h' => by
    obtain ⟨-, rfl⟩ := Prod.mk.inj (h.symm.trans h')
    exact SamePool.refl p
  ok := fun out p' h' => by cases (Prod.mk.inj (h.symm.trans h')).1

theorem allOrNothing_of_ok {out : List ℕ} {p' : BlockPool}
    (h : p.ensureBlocks seqId tokenIds tokens usePrefixCache = (.ok out, p')) (htab : p'.seqBlocks seqId = some out)
    (hlen : p.numBlocksForTokens tokens ≤ out.length) (hpre : p.table seqId <+: out) :
    p.AllOrNothing seqId tokenIds tokens usePrefixCache where
  error := fun e' p' h' => by cases (Prod.mk.inj (h.symm.trans h')).1
  ok := fun out' p'' h' => by
    obtain ⟨hout, rfl⟩ := Prod.mk.inj (h.symm.trans h')
    cases hout
    exact ⟨htab, hlen, hpre⟩

theorem allOrNothing_grow (hseq : p.hasSeq seqId = true) :
    p.AllOrNothing seqId tokenIds tokens usePrefixCache ↔
      p.numBlocksForTokens tokens ≤ (p.table seqId).length + p.freeBlocks.length ∨ p.freeBlocks = [] := by
  have hensure : p.ensureBlocks seqId tokenIds tokens usePrefixCache =
      p.growExisting seqId (p.numBlocksForTokens tokens) := by
    unfold ensureBlocks
    exact if_pos hseq
  by_cases henough : p.numBlocksForTokens tokens - (p.table seqId).length ≤ p.freeBlocks.length
  · obtain ⟨p', hloop, htab, hseq'⟩ := @growLoop_ok p seqId _ henough
    refine iff_of_true ?_ (Or.inl (by omega))
    have hsome : p'.seqBlocks seqId = some (p'.table seqId) := by
      obtain ⟨l, hl⟩ := Option.isSome_iff_exists.1 (hseq' hseq)
      rw [table, hl]
      rfl
    refine @allOrNothing_of_ok _ _ _ _ _ _ (p'.table seqId) p' ?_ hsome ?_ (htab ▸ List.prefix_append _ _)
    · rw [hensure, growExisting_ok hloop]
    · rw [htab, List.length_append, List.length_take]
      omega
  · obtain ⟨e, p', hloop, hfree', hsame⟩ := @growLoop_error p seqId _ (Nat.lt_of_not_le henough)
    have herror : p.ensureBlocks seqId tokenIds tokens usePrefixCache = (.error e, p') := by
      rw [hensure, growExisting_error hloop]
    by_cases hnil : p.freeBlocks = []
    · rw [hsame hnil] at herror
      exact iff_of_true (allOrNothing_of_error herror) (Or.inr hnil)
    · refine iff_of_false (not_allOrNothing hnil hfree' herror) ?_
      rintro (hle | hnil')
      · omega
      · exact hnil hnil'

theorem allOrNothing_new (hseq : ¬ p.hasSeq seqId = true) :
    p.AllOrNothing seqId tokenIds tokens usePrefixCache ↔
      p.freeBlocks.length < freshNeeded (p.planNewBlocks tokenIds (p.numBlocksForTokens tokens) usePrefixCache) ∨
        freshNeeded (p.planNewBlocks tokenIds (p.numBlocksForTokens tokens) usePrefixCache) ≤
          (p.freeBlocks.filter fun b =>
            decide (some b ∉ p.planNewBlocks tokenIds (p.numBlocksForTokens tokens) usePrefixCache)).length := by
  obtain ⟨hits, k, hplan, hlt, hlen⟩ := p.planLoop_hits tokenIds (p.numBlocksForTokens tokens) 0 (-1)
    (!usePrefixCache || !p.prefixCachingEnabled)
  change p.planNewBlocks tokenIds (p.numBlocksForTokens tokens) usePrefixCache = _ at hplan
  have hfresh : freshNeeded (hits.map some ++ List.replicate k none) = k := by
    simp [freshNeeded, List.filter_map, Function.comp_def]
  have hfilter : (p.freeBlocks.filter fun b => decide (some b ∉ hits.map some ++ List.replicate k none)) =
      p.freeBlocks.filter fun b => decide (b ∉ hits) := by
    refine List.filter_congr fun b _ => ?_
    simp
  -- `ensure_blocks` of a new table, with its plan split into the hits and `k` fresh blocks
  have hensure : p.ensureBlocks seqId tokenIds tokens usePrefixCache =
    p.ensureBlocks seqId tokenIds tokens usePrefixCache := rfl
  conv_rhs at hensure => unfold ensureBlocks
  rw [if_neg hseq, hplan] at hensure
  change _ = if p.freeBlocks.length < freshNeeded (hits.map some ++ List.replicate k none) then _ else _ at hensure
  rw [hplan, hfresh, hfilter]
  rw [hfresh] at hensure
  obtain ⟨p₁, hfree₁, herror, hok⟩ := takePlan_hits (p := p) hlt (List.replicate k none)
  by_cases hshort : p.freeBlocks.length < k
  · rw [if_pos hshort] at hensure
    exact iff_of_true (allOrNothing_of_error hensure) (Or.inl hshort)
  · rw [if_neg hshort] at hensure
    -- the length test counts the free list before the hits leave it, so fewer than `k` blocks can be left
    by_cases henough : k ≤ p₁.freeBlocks.length
    · obtain ⟨p', htake⟩ := takePlan_fresh_ok henough
      rw [hok _ p' htake] at hensure
      refine iff_of_true (allOrNothing_of_ok hensure (Function.update_self _ _ _) ?_ ?_) (Or.inr (hfree₁ ▸ henough))
      · rw [List.length_append, List.length_take, min_eq_left henough, hlen]
      · rw [table_of_not_hasSeq hseq]
        exact List.nil_prefix
    · obtain ⟨e, p', htake, hfree'⟩ := takePlan_fresh_error (Nat.lt_of_not_le henough)
      rw [herror e p' htake] at hensure
      refine iff_of_false (not_allOrNothing ?_ hfree' hensure) ?_
      · -- `k` blocks are free, and `k` is not zero
        intro hnil
        rw [hnil, List.length_nil] at hshort
        omega
      · rintro (hlt' | hle)
        · exact hshort hlt'
        · exact henough (hfree₁ ▸ hle)

/-- **When `ensure_blocks` is all or nothing**: in every pool, exactly if a table that grows finds all blocks it needs
or none, and a new table is either refused by the capacity test or has its fresh blocks besides the free blocks it
reuses. -/
theorem allOrNothing_iff (p : BlockPool) (seqId : ℕ) (tokenIds : List ℤ) (tokens : ℤ) (usePrefixCache : Bool) :
    p.AllOrNothing seqId tokenIds tokens usePrefixCache ↔ p.Enough seqId tokenIds tokens usePrefixCache := by
  unfold Enough
  by_cases hseq : p.hasSeq seqId = true
  · rw [if_pos hseq]
    exact allOrNothing_grow hseq
  · rw [if_neg hseq]
    exact allOrNothing_new hseq

end Ensure

section witness

attribute [local instance] codeHash

/-- Two ways to lose blocks to an error: a table that grows by two blocks takes the only one there is; and a reused
block that is free itself was counted for the fresh block of the plan. -/
theorem ensureBlocks_not_allOrNothing :
    (∃ p, Reachable hbmSystem always p ∧ p.hasSeq 1 = true ∧ ¬ p.AllOrNothing 1 [5, 6, 7] 3 true) ∧
      ∃ p, Reachable hbmSystem always p ∧ p.hasSeq 3 = false ∧ ¬ p.AllOrNothing 3 [5, 6] 2 true := by
  constructor
  · obtain ⟨p, hreach, hp⟩ := Reachable.exists_of_run (T := hbmSystem) (G := always)
      (P := fun p : BlockPool => decide (p.hasSeq 1 = true ∧ p.freeBlocks ≠ [] ∧
        (p.ensureBlocks 1 [5, 6, 7] 3 true).1 = .error .outOfKvCacheBlocks ∧
        (p.ensureBlocks 1 [5, 6, 7] 3 true).2.freeBlocks = [])) (s := BlockPool.new 2 1)
      [.ensureBlocks 1 [5] 1 true] ⟨2, 1, rfl⟩ (by decide +kernel)
    obtain ⟨hseq, hne, herror, hfree⟩ := of_decide_eq_true hp
    exact ⟨p, hreach, hseq, not_allOrNothing hne hfree (Prod.ext herror rfl)⟩
  · obtain ⟨p, hreach, hp⟩ := Reachable.exists_of_run (T := hbmSystem) (G := always)
      (P := fun p : BlockPool => decide (p.hasSeq 3 = false ∧ p.freeBlocks ≠ [] ∧
        (p.ensureBlocks 3 [5, 6] 2 true).1 = .error .outOfKvCacheBlocks ∧
        (p.ensureBlocks 3 [5, 6] 2 true).2.freeBlocks = [])) (s := BlockPool.new 2 1)
      [.ensureBlocks 1 [5] 1 true, .commitReady 1 [5] 1, .ensureBlocks 2 [8] 1 true, .removeSeq 1] ⟨2, 1, rfl⟩
      (by decide +kernel)
    obtain ⟨hseq, hne, herror, hfree⟩ := of_decide_eq_true hp
    exact ⟨p, hreach, hseq, not_allOrNothing hne hfree (Prod.ext herror rfl)⟩

end witness

end BlockPool

end NanoEngine
