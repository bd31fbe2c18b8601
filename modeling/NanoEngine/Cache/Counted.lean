import NanoEngine.Cache.PoolRuns

/-!
# NanoEngine.Cache.Counted — no reference is forgotten

`Counted p held`: every occurrence of a block in a table and every held one is counted in its references, and a free
block has none.  Unlike `Sound` it allows references that belong to nobody, so that it survives every failure, and needs
nothing of the hash.
-/

namespace NanoEngine

open Counting

namespace BlockPool

structure Counted (p : BlockPool) (held : List ℕ) : Prop where
  finite_tables : {s | p.seqBlocks s ≠ none}.Finite
  refCount_le : ∀ b, p.occurrences b + held.count b ≤ (p.blocks b).refCount
  free_nodup : p.freeBlocks.Nodup
  free_refCount : ∀ b ∈ p.freeBlocks, (p.blocks b).refCount = 0

theorem counted_new (numBlocks blockSize : ℤ) : (BlockPool.new numBlocks blockSize).Counted [] :=
  have h := sound_new numBlocks blockSize
  ⟨h.finite_tables, fun b => (h.refCount_eq b).ge, h.free_nodup, h.free_refCount⟩

namespace Counted

variable {p p' : BlockPool} {held held' : List ℕ}

/-- References may be forgotten. -/
theorem mono (hp : p.Counted held) (h : ∀ b, held'.count b ≤ held.count b) : p.Counted held' :=
  { hp with refCount_le := fun b => (Nat.add_le_add_left (h b) _).trans (hp.refCount_le b) }

theorem drop (hp : p.Counted held) : p.Counted [] := hp.mono fun b => by simp

/-- A free block is in no table. -/
theorem notMem_table (hp : p.Counted held) {b : ℕ} (hb : b ∈ p.freeBlocks) (seqId : ℕ) :
    (p.table seqId).count b = 0 := by
  have hle : (p.table seqId).count b ≤ p.occurrences b := count_le_familyCount hp.finite_tables seqId b
  have hcount := hp.refCount_le b
  have hzero := hp.free_refCount b hb
  omega

/-- Tables, references and free blocks stay, or fewer blocks are free. -/
theorem congr (hp : p.Counted held) (htab : p'.seqBlocks = p.seqBlocks)
    (hrc : ∀ b, (p'.blocks b).refCount = (p.blocks b).refCount) (hfree : p'.freeBlocks.Sublist p.freeBlocks) :
    p'.Counted held where
  finite_tables := htab ▸ hp.finite_tables
  refCount_le b := by
    have h := hp.refCount_le b
    unfold occurrences at h ⊢
    rwa [htab, hrc]
  free_nodup := hfree.nodup hp.free_nodup
  free_refCount b hb := (hrc b).trans (hp.free_refCount b (hfree.subset hb))

theorem setTable (hp : p.Counted held) (seqId : ℕ) (o : Option (List ℕ))
    (hcount : ∀ b, (o.getD []).count b + held'.count b ≤ (p.table seqId).count b + held.count b) :
    { p with seqBlocks := Function.update p.seqBlocks seqId o }.Counted held' := by
  refine ⟨finite_update hp.finite_tables seqId o, fun b => ?_, hp.free_nodup, hp.free_refCount⟩
  have hupdate := familyCount_update hp.finite_tables seqId o b
  have hrc := hp.refCount_le b
  have hb := hcount b
  unfold table at hb
  unfold occurrences at hrc ⊢
  show familyCount (Function.update p.seqBlocks seqId o) b + held'.count b ≤ (p.blocks b).refCount
  omega

theorem fresh {b : ℕ} (hp : p.Counted held) (h : Fresh p b p') : p'.Counted (b :: held) := by
  have hbfree : b ∈ p.freeBlocks := h.freeBlocks ▸ List.mem_cons_self
  have hnodup := List.nodup_cons.1 (h.freeBlocks ▸ hp.free_nodup)
  refine ⟨h.seqBlocks ▸ hp.finite_tables, fun c => ?_, hnodup.2, fun c hc => ?_⟩
  · have hle := hp.refCount_le c
    unfold occurrences at hle ⊢
    rw [h.seqBlocks, count_cons_eq, List.count_singleton]
    by_cases hc : c = b
    · subst hc
      have hzero := hp.free_refCount c hbfree
      simp only [BEq.rfl, if_true, h.refCount]
      omega
    · rw [h.blocks c hc, if_neg (by simpa using Ne.symm hc)]
      omega
  · have hne : c ≠ b := fun hcb => hnodup.1 (hcb ▸ hc)
    rw [h.blocks c hne]
    exact hp.free_refCount c (h.freeBlocks ▸ List.mem_cons_of_mem b hc)

theorem retainBlock {b : ℕ} (hp : p.Counted held) (h : p.retainBlock b = (.ok (), p')) : p'.Counted (b :: held) := by
  obtain ⟨-, rfl⟩ := retainBlock_ok h
  refine ⟨hp.finite_tables, fun c => ?_, hp.free_nodup.filter _, fun c hc => ?_⟩
  · have hle := hp.refCount_le c
    unfold occurrences at hle ⊢
    rw [count_cons_eq, List.count_singleton]
    show familyCount p.seqBlocks c + _ ≤ (Function.update p.blocks b _ c).refCount
    by_cases hc : c = b
    · subst hc
      simp only [BEq.rfl, if_true, Function.update_self]
      omega
    · rw [Function.update_of_ne hc, if_neg (by simpa using Ne.symm hc)]
      omega
  · obtain ⟨hc, hne⟩ := List.mem_filter.1 hc
    show (Function.update p.blocks b _ c).refCount = 0
    rw [Function.update_of_ne (by simpa using hne)]
    exact hp.free_refCount c hc

theorem retainBlock_error {b : ℕ} {e : PyErr} (h : p.retainBlock b = (.error e, p')) : p' = p := by
  unfold BlockPool.retainBlock at h
  split at h
  case isTrue => cases h
  case isFalse => exact (Prod.mk.inj h).2.symm

theorem releaseOne {b : ℕ} (hp : p.Counted (b :: held)) : (p.releaseOne b).Counted held := by
  have hrc : ∀ c, p.occurrences c + held.count c ≤
      ((Function.update p.blocks b { p.blocks b with refCount := (p.blocks b).refCount - 1 }) c).refCount := by
    intro c
    have hle := hp.refCount_le c
    rw [count_cons_eq, List.count_singleton] at hle
    by_cases hc : c = b
    · subst hc
      simp only [Function.update_self]
      simp only [BEq.rfl, if_true] at hle
      omega
    · rw [Function.update_of_ne hc]
      omega
  have hset : (p.setBlock b { p.blocks b with refCount := (p.blocks b).refCount - 1 }).Counted held := by
    refine ⟨hp.finite_tables, hrc, hp.free_nodup, fun c hc => ?_⟩
    have hzero := hp.free_refCount c hc
    by_cases hcb : c = b
    · subst hcb
      simp only [setBlock, Function.update_self]
      omega
    · simpa only [setBlock, Function.update_of_ne hcb] using hzero
  unfold BlockPool.releaseOne
  split
  -- an id outside the pool is left alone, and what is held only shrinks
  case isFalse =>
    refine hp.mono fun c => ?_
    rw [count_cons_eq]
    omega
  case isTrue =>
    dsimp only
    split
    case isFalse => exact hset
    case isTrue hlast =>
      refine { hset with
        free_nodup := List.nodup_cons.2 ⟨hlast.2, hset.free_nodup⟩
        free_refCount := fun c hc => ?_ }
      rcases List.mem_cons.1 hc with rfl | hc
      · simpa only [setBlock, Function.update_self] using hlast.1
      · exact hset.free_refCount c hc

theorem foldl_releaseOne (blocks : List ℕ) (hp : p.Counted (blocks ++ held)) :
    (blocks.foldl BlockPool.releaseOne p).Counted held := by
  induction blocks generalizing p with
  | nil => exact hp
  | cons b blocks ih => exact ih hp.releaseOne

theorem removeSeq (hp : p.Counted held) (seqId : ℕ) : (p.removeSeq seqId).Counted held := by
  unfold BlockPool.removeSeq
  split
  case h_1 => exact hp
  case h_2 blocks hblocks =>
    refine foldl_releaseOne blocks (hp.setTable seqId none fun b => ?_)
    simp [table, hblocks, List.count_append]

theorem growLoop (hp : p.Counted held) (seqId n : ℕ) : (BlockPool.growLoop seqId n p).2.Counted held := by
  induction n generalizing p with
  | zero => exact hp
  | succ n ih =>
    unfold BlockPool.growLoop
    split
    case h_1 e p' h => exact allocateFreshWithEviction_error h ▸ hp
    case h_2 b evicted p' h =>
      refine ih ((hp.fresh (allocateFreshWithEviction_fresh h).1).setTable seqId _ fun c => ?_)
      show (p'.table seqId ++ [b]).count c + held.count c ≤ (p'.table seqId).count c + (b :: held).count c
      rw [List.count_append, count_cons_eq b c held]
      omega

theorem growExisting (hp : p.Counted held) (seqId needed : ℕ) : (p.growExisting seqId needed).2.Counted held := by
  have h := hp.growLoop seqId (needed - ((p.seqBlocks seqId).getD []).length)
  unfold BlockPool.growExisting
  split
  case h_1 e p' hgrow =>
    rw [hgrow] at h
    exact h
  case h_2 p' hgrow =>
    rw [hgrow] at h
    exact h

/-- What a plan has taken when it ends, also too early, is counted. -/
theorem takePlan (plan : List (Option ℕ)) (hp : p.Counted held) : ∃ out,
    (BlockPool.takePlan plan p).2.Counted (out ++ held) ∧ (BlockPool.takePlan plan p).2.seqBlocks = p.seqBlocks ∧
      ∀ blocks, (BlockPool.takePlan plan p).1 = .ok blocks → out = blocks := by
  induction plan generalizing p held with
  | nil =>
    refine ⟨[], hp, rfl, fun blocks hb => ?_⟩
    cases hb
    rfl
  | cons o plan ih =>
    -- the rest of the plan runs in the pool `p₁` after block `b`
    have hrest : ∀ (b : ℕ) (p₁ : BlockPool), p₁.Counted (b :: held) → p₁.seqBlocks = p.seqBlocks →
        ∃ out, (BlockPool.takePlan plan p₁).2.Counted ((b :: out) ++ held) ∧
          (BlockPool.takePlan plan p₁).2.seqBlocks = p.seqBlocks ∧
          ∀ blocks, (BlockPool.takePlan plan p₁).1 = .ok blocks → out = blocks := by
      intro b p₁ hp₁ htab
      obtain ⟨out, hout, htab', hok⟩ := ih hp₁
      exact ⟨out, hout.mono fun c => (List.perm_middle.symm.count_eq c).le, htab'.trans htab, hok⟩
    cases o with
    | some b =>
      rw [BlockPool.takePlan]
      split
      case h_1 e p₁ hretain =>
        obtain rfl := retainBlock_error hretain
        exact ⟨[], hp, rfl, fun _ h => by cases h⟩
      case h_2 p₁ hretain =>
        have htab : p₁.seqBlocks = p.seqBlocks := by
          obtain ⟨-, rfl⟩ := retainBlock_ok hretain
          rfl
        obtain ⟨out, hout, htab', hok⟩ := hrest b p₁ (hp.retainBlock hretain) htab
        split
        case h_1 e p₂ hplan =>
          rw [hplan] at hout htab'
          exact ⟨b :: out, hout, htab', fun _ h => by cases h⟩
        case h_2 blocks p₂ hplan =>
          rw [hplan] at hout htab' hok
          refine ⟨b :: out, hout, htab', fun blocks' h => ?_⟩
          cases h
          rw [hok blocks rfl]
    | none =>
      rw [BlockPool.takePlan]
      split
      case h_1 e p₁ hfresh =>
        obtain rfl := allocateFreshWithEviction_error hfresh
        exact ⟨[], hp, rfl, fun _ h => by cases h⟩
      case h_2 b evicted p₁ hfresh =>
        have hf := (allocateFreshWithEviction_fresh hfresh).1
        obtain ⟨out, hout, htab', hok⟩ := hrest b p₁ (hp.fresh hf) hf.seqBlocks
        split
        case h_1 e p₂ hplan =>
          rw [hplan] at hout htab'
          exact ⟨b :: out, hout, htab', fun _ h => by cases h⟩
        case h_2 blocks p₂ hplan =>
          rw [hplan] at hout htab' hok
          refine ⟨b :: out, hout, htab', fun blocks' h => ?_⟩
          cases h
          rw [hok blocks rfl]

theorem touchReadyHash (hp : p.Counted held) (h : ℤ) : (p.touchReadyHash h).Counted held :=
  hp.congr (by simp) (by simp) (by simp)

theorem lookup (hp : p.Counted held) (hash : ℤ) (tokens : List ℤ) :
    (p.lookupReadyPrefixBlock hash tokens).2.Counted held := by
  unfold lookupReadyPrefixBlock
  split
  case h_1 => exact hp
  case h_2 => exact hp.touchReadyHash hash

/-- What was taken for a sequence becomes its table. -/
theorem insertSeqBlocks {out : List ℕ} (hp : p.Counted (out ++ held)) (seqId : ℕ) :
    (p.insertSeqBlocks seqId out).Counted held := by
  have hfree : ({ p with freeBlocks := p.freeBlocks.filter (fun id => decide (id ∉ out)) } : BlockPool).Counted
      (out ++ held) := hp.congr rfl (fun _ => rfl) List.filter_sublist
  refine hfree.setTable seqId (some out) fun b => ?_
  rw [Option.getD_some, List.count_append]
  omega

/-- The index and the contents of blocks do not matter. -/
theorem setMeta (hp : p.Counted held) (b : ℕ) (m : BlockMeta) (hm : m.refCount = (p.blocks b).refCount)
    (index : ℤ → Option ℕ) : ({ p.setBlock b m with hashToBlockId := index } : BlockPool).Counted held := by
  refine hp.congr rfl (fun c => ?_) (List.Sublist.refl _)
  show (Function.update p.blocks b m c).refCount = _
  by_cases hc : c = b
  · subst hc
    rw [Function.update_self, hm]
  · rw [Function.update_of_ne hc]

section hash

variable [Xxh3]

theorem ensureBlocks (hp : p.Counted held) (seqId : ℕ) (tokenIds : List ℤ) (tokens : ℤ) (usePrefixCache : Bool) :
    (p.ensureBlocks seqId tokenIds tokens usePrefixCache).2.Counted held := by
  unfold BlockPool.ensureBlocks
  dsimp only
  split
  case isTrue => exact hp.growExisting seqId _
  case isFalse hnew =>
    split
    case isTrue => exact hp
    case isFalse =>
      obtain ⟨out, hout, htab, hok⟩ :=
        hp.takePlan (p.planNewBlocks tokenIds (p.numBlocksForTokens tokens) usePrefixCache)
      split
      case h_1 e p' hplan =>
        rw [hplan] at hout
        refine hout.mono fun b => ?_
        rw [List.count_append]
        omega
      case h_2 blocks p' hplan =>
        rw [hplan] at hout htab hok
        obtain rfl := hok blocks rfl
        refine hout.setTable seqId (some out) fun b => ?_
        rw [Option.getD_some, List.count_append]
        omega

theorem commitLoop (hp : p.Counted held) (tokenIds : List ℤ) (table : List ℕ) (blockIdx : ℕ) (h : ℤ) :
    (BlockPool.commitLoop tokenIds table blockIdx h p).Counted held := by
  induction table generalizing p blockIdx h with
  | nil => exact hp
  | cons b table ih =>
    rw [BlockPool.commitLoop]
    dsimp only
    split
    case isTrue => exact hp
    case isFalse =>
      split
      case h_1 => exact ih hp (blockIdx + 1) _
      case h_2 m hget =>
        have hm : m = p.blocks b := by
          unfold getBlock at hget
          split at hget
          case isTrue => exact (Option.some.inj hget).symm
          case isFalse => cases hget
        subst hm
        split
        case isTrue =>
          refine ih ?_ (blockIdx + 1) _
          exact hp.congr rfl (fun _ => rfl) (List.Sublist.refl _)
        case isFalse =>
          refine ih (touchReadyHash (setMeta hp b _ ?_ _) _) (blockIdx + 1) _
          rfl

theorem commitReady (hp : p.Counted held) (seqId : ℕ) (tokenIds : List ℤ) (committedTokens : ℤ) :
    (p.commitReady seqId tokenIds committedTokens).Counted held := by
  unfold BlockPool.commitReady
  split
  case h_1 => exact hp
  case h_2 table _ => exact hp.commitLoop tokenIds _ 0 (-1)

end hash

/-! ### Prefixes on the host -/

/-- An evicted block has no reference, and its references stay as they are. -/
theorem evictLoop (hp : p.Counted held) (lru : List ℤ) : (p.evictLoop lru).2.Counted held ∧
    (p.evictLoop lru).2.freeBlocks = p.freeBlocks ∧
      ∀ b, (p.evictLoop lru).1 = some b → ((p.evictLoop lru).2.blocks b).refCount = 0 := by
  induction lru generalizing p with
  | nil => exact ⟨hp.congr rfl (fun _ => rfl) (List.Sublist.refl _), rfl, fun b hb => by cases hb⟩
  | cons hash lru ih =>
    unfold BlockPool.evictLoop
    split
    case h_1 => exact ih hp
    case h_2 b hb =>
      have hremoved : ({ p with hashToBlockId := Function.update p.hashToBlockId hash none, readyLru := lru } :
          BlockPool).Counted held := hp.congr rfl (fun _ => rfl) (List.Sublist.refl _)
      dsimp only
      split
      case isFalse => exact ih hremoved
      case isTrue =>
        split
        case isFalse => exact ih hp
        case isTrue hzero =>
          refine ⟨setMeta hremoved b _ ?_ _, rfl, fun b' hb' => ?_⟩
          · rfl
          cases hb'
          show (Function.update p.blocks b _ b).refCount = 0
          rw [Function.update_self]
          exact hzero.1

/-- A prefix is stored in a block without references. -/
theorem storeReadyCacheBlock (hp : p.Counted held) (hash : ℤ) (tokens : List ℤ) :
    (p.storeReadyCacheBlock hash tokens).2.Counted held := by
  unfold BlockPool.storeReadyCacheBlock
  split
  case h_1 => exact hp.touchReadyHash hash
  case h_2 =>
    have hevict : ∀ r, p.evictReadyCacheBlock = r → r.2.Counted held ∧ ∀ b, r.1 = some b →
      (r.2.blocks b).refCount = 0 := by
      rintro r rfl
      have hloop := hp.evictLoop p.readyLru
      exact ⟨hloop.1, hloop.2.2⟩
    dsimp only
    split
    case h_1 p' heq =>
      split at heq
      case h_1 => cases heq
      case h_2 => exact (hevict _ heq).1
    case h_2 b p' heq =>
      obtain ⟨hp', hb⟩ : p'.Counted held ∧ (p'.blocks b).refCount = 0 := by
        split at heq
        case h_1 b' free hfree =>
          cases heq
          exact ⟨hp.congr rfl (fun _ => rfl) (by rw [hfree]; exact List.sublist_cons_self b free),
            hp.free_refCount b (hfree ▸ List.mem_cons_self)⟩
        case h_2 => exact ⟨(hevict _ heq).1, (hevict _ heq).2 b rfl⟩
      dsimp only
      refine touchReadyHash ?_ hash
      split
      case isTrue =>
        refine setMeta (p := { p' with
          hashToBlockId := Function.update p'.hashToBlockId (p'.blocks b).hash none
          readyLru := p'.readyLru.filter (fun h => decide (h ≠ (p'.blocks b).hash)) }) ?_ b _ hb.symm _
        exact hp'.congr rfl (fun _ => rfl) (List.Sublist.refl _)
      case isFalse => exact hp'.setMeta b _ hb.symm _

end Counted

end BlockPool

end NanoEngine
