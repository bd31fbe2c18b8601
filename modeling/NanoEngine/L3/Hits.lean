import NanoEngine.Cache.PoolRuns
import NanoEngine.L3.Counts

/-!
# NanoEngine.L3.Hits — which prefix hits of the manager are sound

A hit compares the tokens of the block with those of the sequence, not its hash, and entries of the index stay when
their block is handed out again.

* `HitsSound`: a counted block was last assigned to the prefix that is looked for, or is loaded with it.
* `plan`: the free blocks and the loads of `allocate` up to a block, read off the manager before the call.
* `stale`: the index gives a block with the tokens of the block, assigned to another prefix.
* `Follows`, `follows_plan`: up to the first stale entry the loop follows the plan.
* `hitsSound_iff`.
-/

namespace NanoEngine

open Transition

namespace BlockManager

/-- A manager that differs from `m` in one block, in what is free and used, and in the queues. -/
structure Near (m m₁ : BlockManager) (b : ℕ) : Prop where
  blockSize : m₁.blockSize = m.blockSize
  numBlocks : m₁.numBlocks = m.numBlocks
  caching : m₁.prefixCachingEnabled = m.prefixCachingEnabled
  l3Enabled : m₁.l3Enabled = m.l3Enabled
  resident : m₁.l3ResidentHashes = m.l3ResidentHashes
  index : m₁.hashToBlockId = m.hashToBlockId
  other : ∀ c, c ≠ b → m₁.blocks c = m.blocks c

theorem near_reuse (m : BlockManager) (b : ℕ) : Near m (m.reuse b) b :=
  ⟨rfl, rfl, rfl, rfl, rfl, rfl, fun _ hc => Function.update_of_ne hc _ _⟩

theorem near_load (m : BlockManager) (b : ℕ) (rest : List ℕ) (h : ℤ) :
    Near m ((m.takeFree b rest).queueLoad h b) b :=
  ⟨rfl, rfl, rfl, rfl, rfl, rfl, fun _ hc => Function.update_of_ne hc _ _⟩

variable [Xxh3]

/-- What a round that counts block `h` as cached has to show: the block was assigned to `h`, or it is a fresh one and a
load of `h` is queued for it. -/
def SoundRound (m m' : BlockManager) (l l' : AllocLoop) (h : ℤ) : Prop :=
  l'.numPrefixCached = l.numPrefixCached + 1 →
    ∃ b, l'.newTable = l.newTable ++ [b] ∧
      ((m.blocks b).hash = h ∨ b ∈ m.freeBlockIds ∧ m'.pendingLoads = m.pendingLoads ++ [(h, b)])

/-- Every block that `allocate` counts as a prefix hit of the sequence has the hash of the prefix up to its end. -/
def HitsSound (m : BlockManager) (seq : Sequence) : Prop :=
  m.holdsTable seq = false → ∀ j < m.numBlocksForSeq seq, ∀ l m₁ l' m₂,
    m.allocateBlocks seq.tokenIds j = (.ok l, m₁) → m.allocateBlocks seq.tokenIds (j + 1) = (.ok l', m₂) →
      SoundRound m₁ m₂ l l' (chainHash m.blockSize seq.tokenIds (j + 1))

/-! ## The plan of a call -/

/-- The free blocks that are left, and the blocks taken for loads with the places they are loaded for. -/
structure LoadPlan where
  free : List ℕ
  loaded : List (ℕ × ℕ)

/-- The block that is hit at place `j`, unless a load of the same call has taken it. -/
def entry (m : BlockManager) (tokenIds : List ℤ) (j : ℕ) (p : LoadPlan) : Option ℕ :=
  (m.gpuHit (chainHash m.blockSize tokenIds (j + 1)) (blockView m.blockSize tokenIds j)).filter fun b =>
    decide (b ∉ p.loaded.map Prod.fst)

/-- A block is taken from the free ones for a load. -/
def LoadPlan.load (p : LoadPlan) (j : ℕ) : Option LoadPlan :=
  p.free.head?.map fun b => ⟨p.free.tail.filter fun c => decide (c ≠ b), p.loaded ++ [(b, j)]⟩

/-- Place `j`: a hit, or a load, or the end of the prefix. -/
def planRound (m : BlockManager) (tokenIds : List ℤ) (j : ℕ) (p : LoadPlan) : Option LoadPlan :=
  if (blockView m.blockSize tokenIds j).length ≠ m.blockSize then none
  else
    ((m.entry tokenIds j p).map fun b => { p with free := p.free.filter fun c => decide (c ≠ b) }).orElse fun _ =>
      if m.l3Enabled && decide (chainHash m.blockSize tokenIds (j + 1) ∈ m.l3ResidentHashes) then p.load j else none

def plan (m : BlockManager) (tokenIds : List ℤ) : ℕ → Option LoadPlan
  | 0 => some ⟨m.freeBlockIds, []⟩
  | j + 1 => (m.plan tokenIds j).bind (m.planRound tokenIds j)

/-- The index gives for place `j` a block with its tokens that belongs to another prefix: it was assigned to that before
the call, or it has just been taken for the load of an earlier place with the same tokens. -/
def stale (m : BlockManager) (tokenIds : List ℤ) (j : ℕ) (p : LoadPlan) : Bool :=
  (m.entry tokenIds j p).any (fun b => decide ((m.blocks b).hash ≠ chainHash m.blockSize tokenIds (j + 1))) ||
    (m.hashToBlockId (chainHash m.blockSize tokenIds (j + 1))).any fun b =>
      p.loaded.any fun x => decide (x.1 = b) &&
        decide (blockView m.blockSize tokenIds x.2 = blockView m.blockSize tokenIds j)

/-- No place up to the first miss has a stale entry. -/
def cleanHits (m : BlockManager) (seq : Sequence) : Bool :=
  m.holdsTable seq || !m.prefixCachingEnabled || (List.range (m.numBlocksForSeq seq)).all fun j =>
    decide ((blockView m.blockSize seq.tokenIds j).length ≠ m.blockSize) ||
      (m.plan seq.tokenIds j).all fun p => !m.stale seq.tokenIds j p

/-! ## The loop follows the plan -/

/-- The manager `m'` and the loop after the first `j` places, all of them hits or loads by the plan. -/
structure Follows (m : BlockManager) (tokenIds : List ℤ) (j : ℕ) (p : LoadPlan)
    (l : AllocLoop) (m' : BlockManager) :
    Prop where
  cacheMiss : l.cacheMiss = false
  hash : l.h = chainHash m.blockSize tokenIds j
  parts : m'.Parts
  blockSize : m'.blockSize = m.blockSize
  numBlocks : m'.numBlocks = m.numBlocks
  caching : m'.prefixCachingEnabled = m.prefixCachingEnabled
  l3Enabled : m'.l3Enabled = m.l3Enabled
  resident : m'.l3ResidentHashes = m.l3ResidentHashes
  free : m'.freeBlockIds = p.free
  kept : ∀ b, b ∉ p.loaded.map Prod.fst →
    (m'.blocks b).tokenIds = (m.blocks b).tokenIds ∧ (m'.blocks b).hash = (m.blocks b).hash
  loaded : ∀ b i, (b, i) ∈ p.loaded → i < j ∧ b ∉ p.free ∧ b < m.numBlocks ∧
    (m'.blocks b).tokenIds = blockView m.blockSize tokenIds i ∧
      (m'.blocks b).hash = chainHash m.blockSize tokenIds (i + 1)
  index : ∀ k, j ≤ k → m'.hashToBlockId (chainHash m.blockSize tokenIds (k + 1)) =
    m.hashToBlockId (chainHash m.blockSize tokenIds (k + 1))

theorem chainHash_eq_prefixHash (blockSize : ℕ) (tokenIds : List ℤ) (n : ℕ) :
    chainHash blockSize tokenIds n = BlockPool.prefixHash ((List.range n).map (blockView blockSize tokenIds)) := by
  induction n with
  | zero => rfl
  | succ n ih => rw [chainHash, ih, List.range_succ, List.map_append, List.map_singleton, BlockPool.prefixHash_append]

theorem chainHash_inj (hinj : BlockPool.HashInjective) {blockSize : ℕ} {tokenIds : List ℤ} {i k : ℕ}
    (h : chainHash blockSize tokenIds i = chainHash blockSize tokenIds k) : i = k := by
  rw [chainHash_eq_prefixHash, chainHash_eq_prefixHash] at h
  simpa using congrArg List.length (hinj.prefixHash_inj _ _ h)

variable {m m' : BlockManager} {tokenIds : List ℤ} {j : ℕ} {p : LoadPlan} {l : AllocLoop}

theorem entry_eq_some {b : ℕ} :
    m.entry tokenIds j p = some b ↔
      m.gpuHit (chainHash m.blockSize tokenIds (j + 1)) (blockView m.blockSize tokenIds j) = some b ∧
        b ∉ p.loaded.map Prod.fst := by
  unfold entry
  rw [Option.filter_eq_some_iff, decide_eq_true_eq]

theorem Follows.nextHash (h : Follows m tokenIds j p l m') (hcaching : m.prefixCachingEnabled = true)
    (hfull : (blockView m.blockSize tokenIds j).length = m.blockSize) :
    m'.nextHash (blockView m.blockSize tokenIds j) l.h = chainHash m.blockSize tokenIds (j + 1) := by
  unfold BlockManager.nextHash
  rw [h.caching, hcaching, h.blockSize, h.hash, hfull]
  simp [chainHash]

/-- Without a stale entry the loop finds the block of the plan. -/
theorem Follows.gpuHit (h : Follows m tokenIds j p l m') (hstale : m.stale tokenIds j p = false) :
    m'.gpuHit (chainHash m.blockSize tokenIds (j + 1)) (blockView m.blockSize tokenIds j) = m.entry tokenIds j p := by
  refine Option.ext fun b => ?_
  rw [entry_eq_some, gpuHit_eq_some, gpuHit_eq_some, h.index j le_rfl, h.numBlocks]
  by_cases hb : b ∈ p.loaded.map Prod.fst
  · obtain ⟨⟨b, i⟩, hmem, rfl⟩ := List.mem_map.1 hb
    obtain ⟨-, -, -, htokens, -⟩ := h.loaded b i hmem
    rw [htokens]
    constructor
    · rintro ⟨hindex, -, hview⟩
      have hloaded : ∃ x ∈ p.loaded, x.1 = b ∧
        blockView m.blockSize tokenIds x.2 = blockView m.blockSize tokenIds j :=
        ⟨(b, i), hmem, rfl, hview⟩
      refine absurd hstale ?_
      simpa [stale, hindex] using fun _ => hloaded
    · exact fun hin => absurd hb hin.2
  · rw [(h.kept b hb).1]
    exact ⟨fun hin => ⟨hin, hb⟩, fun hin => hin.1⟩

theorem chainHash_succ_ne (hinj : BlockPool.HashInjective) (blockSize : ℕ) (tokenIds : List ℤ) (n : ℕ) :
    chainHash blockSize tokenIds (n + 1) ≠ -1 := hinj.ne_neg_one _ _

/-- Block `b` is recorded for place `j`: it had the hash and the tokens before, or it is loaded for this place. -/
theorem Follows.next (hinj : BlockPool.HashInjective) (h : Follows m tokenIds j p l m') {m₁ : BlockManager} {b : ℕ}
    {p' : LoadPlan} {l' : AllocLoop} (hnear : Near m' m₁ b)
    (hparts : (m₁.record (chainHash m.blockSize tokenIds (j + 1)) (blockView m.blockSize tokenIds j) b).Parts)
    (hmiss : l'.cacheMiss = false) (hl : l'.h = chainHash m.blockSize tokenIds (j + 1))
    (hfree : m₁.freeBlockIds = p'.free)
    (hkept : ∀ c, c ∉ p'.loaded.map Prod.fst → c ∉ p.loaded.map Prod.fst ∧
      (c = b → (m.blocks b).tokenIds = blockView m.blockSize tokenIds j ∧
        (m.blocks b).hash = chainHash m.blockSize tokenIds (j + 1)))
    (hloaded : ∀ c i, (c, i) ∈ p'.loaded → c ∉ p'.free ∧
      ((c, i) ∈ p.loaded ∧ c ≠ b ∨ c = b ∧ i = j ∧ b < m.numBlocks)) :
    Follows m tokenIds (j + 1) p' l'
      (m₁.record (chainHash m.blockSize tokenIds (j + 1)) (blockView m.blockSize tokenIds j) b) := by
  have hne : chainHash m.blockSize tokenIds (j + 1) ≠ -1 := hinj.ne_neg_one _ _
  have hrecord : m₁.record (chainHash m.blockSize tokenIds (j + 1)) (blockView m.blockSize tokenIds j) b =
    _ := if_pos hne
  have hother : ∀ c, c ≠ b →
    (m₁.record (chainHash m.blockSize tokenIds (j + 1)) (blockView m.blockSize tokenIds j) b).blocks c =
      m'.blocks c := by
    intro c hc
    rw [hrecord]
    exact (Function.update_of_ne hc _ _).trans (hnear.other c hc)
  have hself :
    ((m₁.record (chainHash m.blockSize tokenIds (j + 1)) (blockView m.blockSize tokenIds j) b).blocks b).tokenIds =
        blockView m.blockSize tokenIds j ∧
      ((m₁.record (chainHash m.blockSize tokenIds (j + 1)) (blockView m.blockSize tokenIds j) b).blocks b).hash =
        chainHash m.blockSize tokenIds (j + 1) := by
    rw [hrecord]
    show (Function.update m₁.blocks b _ b).tokenIds = _ ∧ (Function.update m₁.blocks b _ b).hash = _
    rw [Function.update_self]
    exact ⟨rfl, rfl⟩
  -- the configuration of the manager and its index for later places are as before
  refine ⟨hmiss, hl, hparts, ?_, ?_, ?_, ?_, ?_, ?_, fun c hc => ?_, fun c i hc => ?_, fun k hk => ?_⟩
  · rw [hrecord]
    exact hnear.blockSize.trans h.blockSize
  · rw [hrecord]
    exact hnear.numBlocks.trans h.numBlocks
  · rw [hrecord]
    exact hnear.caching.trans h.caching
  · rw [hrecord]
    exact hnear.l3Enabled.trans h.l3Enabled
  · rw [hrecord]
    exact hnear.resident.trans h.resident
  · rw [hrecord]
    exact hfree
  · obtain ⟨hold, hb⟩ := hkept c hc
    rcases eq_or_ne c b with rfl | hcb
    · rw [hself.1, hself.2, (hb rfl).1, (hb rfl).2]
      exact ⟨rfl, rfl⟩
    · rw [hother c hcb]
      exact h.kept c hold
  · obtain ⟨hcfree, ⟨hold, hcb⟩ | ⟨rfl, rfl, hb⟩⟩ := hloaded c i hc
    · obtain ⟨hi, -, hlt, hview⟩ := h.loaded c i hold
      rw [hother c hcb]
      exact ⟨Nat.lt_succ_of_lt hi, hcfree, hlt, hview⟩
    · exact ⟨Nat.lt_succ_self i, hcfree, hb, hself⟩
  · have hk' : chainHash m.blockSize tokenIds (k + 1) ≠ chainHash m.blockSize tokenIds (j + 1) := fun heq => by
      have := chainHash_inj hinj heq
      omega
    rw [hrecord]
    refine (Function.update_of_ne hk' _ _).trans ?_
    rw [hnear.index]
    exact h.index k (Nat.le_of_succ_le hk)

/-- A hit by the plan. -/
theorem Follows.hit (hinj : BlockPool.HashInjective) (h : Follows m tokenIds j p l m') {b : ℕ}
    (hentry : m.entry tokenIds j p = some b) (hhash : (m.blocks b).hash = chainHash m.blockSize tokenIds (j + 1))
    {l' : AllocLoop} (hmiss : l'.cacheMiss = false) (hl : l'.h = chainHash m.blockSize tokenIds (j + 1)) :
    Follows m tokenIds (j + 1) { p with free := p.free.filter fun c => decide (c ≠ b) } l'
      ((m'.reuse b).record (chainHash m.blockSize tokenIds (j + 1)) (blockView m.blockSize tokenIds j) b) := by
  obtain ⟨hhit, hnotin⟩ := entry_eq_some.1 hentry
  obtain ⟨-, hb, htokens⟩ := gpuHit_eq_some.1 hhit
  have htakes := (h.parts.reuse (h.numBlocks.symm ▸ hb)).record (Finset.mem_insert_self _ _)
    (chainHash m.blockSize tokenIds (j + 1)) (blockView m.blockSize tokenIds j)
  refine h.next hinj (near_reuse m' b) htakes.parts hmiss hl ?_ (fun c hc => ⟨hc, fun _ => ⟨htokens, hhash⟩⟩)
    fun c i hc => ⟨fun hin => (h.loaded c i hc).2.1 (List.mem_of_mem_filter hin), .inl ⟨hc, ?_⟩⟩
  · rw [h.parts.reuse_free b, h.free]
  · rintro rfl
    exact hnotin (List.mem_map_of_mem hc)

/-- A load by the plan. -/
theorem Follows.load (hinj : BlockPool.HashInjective) (h : Follows m tokenIds j p l m') {b : ℕ} {rest : List ℕ}
    (hfree : m'.freeBlockIds = b :: rest) (l' : AllocLoop) (hmiss : l'.cacheMiss = false)
    (hl : l'.h = chainHash m.blockSize tokenIds (j + 1)) :
    ∃ p', p.load j = some p' ∧ Follows m tokenIds (j + 1) p' l'
      (((m'.takeFree b rest).queueLoad (chainHash m.blockSize tokenIds (j + 1)) b).record
        (chainHash m.blockSize tokenIds (j + 1)) (blockView m.blockSize tokenIds j) b) := by
  have hpfree : p.free = b :: rest := h.free.symm.trans hfree
  have hmem : b ∈ m'.freeBlockIds := hfree ▸ List.mem_cons_self
  have htakes := ((h.parts.takeFree hfree).queueLoad (chainHash m.blockSize tokenIds (j + 1)) b).record
    (Finset.mem_insert_self _ _) (chainHash m.blockSize tokenIds (j + 1)) (blockView m.blockSize tokenIds j)
  refine ⟨⟨rest.filter fun c => decide (c ≠ b), p.loaded ++ [(b, j)]⟩, by simp [LoadPlan.load, hpfree], ?_⟩
  refine h.next hinj (near_load m' b rest _) htakes.parts hmiss hl rfl (fun c hc => ?_) fun c i hc => ?_
  · rw [List.map_append, List.mem_append, not_or] at hc
    refine ⟨hc.1, ?_⟩
    rintro rfl
    exact absurd (by simp) hc.2
  · rcases List.mem_append.1 hc with hold | hnew
    · have hcfree := (h.loaded c i hold).2.1
      rw [hpfree, List.mem_cons, not_or] at hcfree
      exact ⟨fun hin => hcfree.2 (List.mem_of_mem_filter hin), .inl ⟨hold, hcfree.1⟩⟩
    · obtain ⟨rfl, rfl⟩ := Prod.mk.inj (List.mem_singleton.1 hnew)
      refine ⟨fun hin => ?_, .inr ⟨rfl, rfl, h.numBlocks ▸ h.parts.freeInRange c hmem⟩⟩
      simpa using (List.mem_filter.1 hin).2

/-- After a miss, and at a place without a hash, nothing is counted. -/
theorem round_missed (hm : m.Parts) {view : List ℤ}
    (h : l.cacheMiss = true ∨ m.nextHash view l.h = -1) {l' : AllocLoop}
    {m₂ : BlockManager} (hok : m.allocateBlock view l = (.ok l', m₂)) :
    l'.cacheMiss = true ∧ l'.numPrefixCached = l.numPrefixCached := by
  cases allocateBlock_cases hm.freeInRange view l with
  | out hneeds hfree heq =>
    rw [hok] at heq
    cases heq
  | miss b rest hl3 hmiss hfree heq =>
    rw [hok] at heq
    cases heq
    exact ⟨rfl, rfl⟩
  | load b rest hl3 hfree heq =>
    obtain ⟨hcm, -, -, hne, -⟩ := l3Hit_eq_true.1 hl3
    rcases h with h | h
    · rw [hcm] at h
      cases h
    · exact absurd h hne
  | hit b hcm hhit heq =>
    rcases h with h | h
    · rw [hcm] at h
      cases h
    · rw [h, gpuHit_eq_some, hm.index_mark] at hhit
      cases hhit.1

/-- One place of the loop: it follows the plan, or ends the prefix. -/
theorem Follows.round (hinj : BlockPool.HashInjective) (h : Follows m tokenIds j p l m')
    (hcaching : m.prefixCachingEnabled = true)
    (hstale : (blockView m.blockSize tokenIds j).length = m.blockSize → m.stale tokenIds j p = false) :
    (∃ p' l' m₂, m'.allocateBlock (blockView m'.blockSize tokenIds j) l = (.ok l', m₂) ∧
      m.planRound tokenIds j p = some p' ∧ Follows m tokenIds (j + 1) p' l' m₂ ∧
      SoundRound m' m₂ l l' (chainHash m.blockSize tokenIds (j + 1))) ∨
    (m.planRound tokenIds j p = none ∧
      ∀ l' m₂, m'.allocateBlock (blockView m'.blockSize tokenIds j) l = (.ok l', m₂) →
        l'.cacheMiss = true ∧ l'.numPrefixCached = l.numPrefixCached) := by
  rw [h.blockSize]
  by_cases hfull : (blockView m.blockSize tokenIds j).length = m.blockSize
  case neg =>
    refine .inr ⟨if_pos hfull, fun l' m₂ hok => round_missed h.parts (.inr ?_) hok⟩
    rw [BlockManager.nextHash, h.blockSize]
    simp [hfull]
  have hplan : m.planRound tokenIds j p = _ := if_neg (not_not.2 hfull)
  have hnext := h.nextHash hcaching hfull
  have hgpu := h.gpuHit (hstale hfull)
  have hround := allocateBlock_cases h.parts.freeInRange (blockView m.blockSize tokenIds j) l
  -- an entry that is not stale is a GPU hit; without one L3 decides between a load and a miss
  cases hentry : m.entry tokenIds j p with
  | some b =>
    have hhash : (m.blocks b).hash = chainHash m.blockSize tokenIds (j + 1) := by
      have := hstale hfull
      simp only [stale, hentry, Bool.or_eq_false_iff, Option.any_some, decide_eq_false_iff_not, not_not] at this
      exact this.1
    have hhit : m'.gpuHit (m'.nextHash (blockView m.blockSize tokenIds j) l.h) (blockView m.blockSize tokenIds j) =
        some b := by rw [hnext, hgpu, hentry]
    have hmissed : m'.missed (blockView m.blockSize tokenIds j) l = false :=
      missed_eq_false.2 ⟨h.cacheMiss, .inl ⟨b, hhit⟩⟩
    have hl3 : m'.l3Hit (blockView m.blockSize tokenIds j) l = false := by
      rw [← Bool.not_eq_true, l3Hit_eq_true, hhit]
      rintro ⟨-, hnone, -⟩
      cases hnone
    cases hround with
    | out hneeds =>
      rw [hmissed, hl3] at hneeds
      simp at hneeds
    | miss b' rest hl3' hmiss' =>
      rw [hmissed] at hmiss'
      cases hmiss'
    | load b' rest hl3' =>
      rw [hl3] at hl3'
      cases hl3'
    | hit b' hcm hhit' heq =>
      obtain rfl : b = b' := Option.some.inj (hhit.symm.trans hhit')
      refine .inl ⟨_, _, _, heq, by rw [hplan, hentry]; rfl, ?_, fun _ => ⟨b, rfl, .inl ?_⟩⟩
      · rw [hnext]
        exact h.hit hinj hentry hhash rfl hnext
      · exact (h.kept b (entry_eq_some.1 hentry).2).2.trans hhash
  | none =>
    have hhit : m'.gpuHit (m'.nextHash (blockView m.blockSize tokenIds j) l.h) (blockView m.blockSize tokenIds j) =
        none := by rw [hnext, hgpu, hentry]
    have hl3 : m'.l3Hit (blockView m.blockSize tokenIds j) l = true ↔
        (m.l3Enabled && decide (chainHash m.blockSize tokenIds (j + 1) ∈ m.l3ResidentHashes)) = true := by
      rw [l3Hit_eq_true, hhit, hnext, h.l3Enabled, h.resident, Bool.and_eq_true, decide_eq_true_eq]
      exact ⟨fun h => ⟨h.2.2.1, h.2.2.2.2⟩, fun hin =>
        ⟨h.cacheMiss, rfl, hin.1, hinj.ne_neg_one _ _, hin.2⟩⟩
    rw [hentry] at hplan
    cases hround with
    | out hneeds hfree heq =>
      refine .inr ⟨?_, fun l' m₂ hok => ?_⟩
      · rw [hplan]
        show (if _ then p.load j else none) = none
        split_ifs
        · rw [LoadPlan.load, ← h.free, hfree]
          rfl
        · rfl
      · rw [heq] at hok
        cases hok
    | miss b rest hl3' hmiss hfree heq =>
      refine .inr ⟨?_, fun l' m₂ hok => ?_⟩
      · rw [hplan]
        exact if_neg fun hin => by rw [hl3.2 hin] at hl3'; cases hl3'
      · rw [heq] at hok
        cases hok
        exact ⟨rfl, rfl⟩
    | load b rest hl3' hfree heq =>
      obtain ⟨p', hload, hfollows⟩ := h.load hinj hfree
        (m'.nextLoop (blockView m.blockSize tokenIds j) l b false true)
        rfl hnext
      refine .inl ⟨p', _, _, heq, ?_, ?_, fun _ => ⟨b, rfl, .inr ⟨hfree ▸ List.mem_cons_self, ?_⟩⟩⟩
      · rw [hplan]
        exact (if_pos (hl3.1 hl3')).trans hload
      · rw [hnext]
        exact hfollows
      · have hne : chainHash m.blockSize tokenIds (j + 1) ≠ -1 := hinj.ne_neg_one _ _
        rw [hnext, record, if_pos hne]
        rfl
    | hit b hcm hhit' =>
      rw [hhit] at hhit'
      cases hhit'

/-- A stale entry is hit and counted. -/
theorem Follows.unsound (hinj : BlockPool.HashInjective) (h : Follows m tokenIds j p l m')
    (hcaching : m.prefixCachingEnabled = true) (hfull : (blockView m.blockSize tokenIds j).length = m.blockSize)
    (hstale : m.stale tokenIds j p = true) :
    ∃ l' m₂, m'.allocateBlock (blockView m'.blockSize tokenIds j) l = (.ok l', m₂) ∧
      ¬ SoundRound m' m₂ l l' (chainHash m.blockSize tokenIds (j + 1)) := by
  rw [h.blockSize]
  obtain ⟨b, hhit, hhash⟩ : ∃ b, m'.gpuHit (chainHash m.blockSize tokenIds (j + 1))
    (blockView m.blockSize tokenIds j) =
      some b ∧ (m'.blocks b).hash ≠ chainHash m.blockSize tokenIds (j + 1) := by
    -- the entry is from before the call, or it is of a block that this call has loaded for another place
    rcases Bool.or_eq_true_iff.1 hstale with hold | hload
    · obtain ⟨b, hentry, hne⟩ := (Option.any_eq_true _ _).1 hold
      obtain ⟨hgpu, hnotin⟩ := entry_eq_some.1 hentry
      obtain ⟨hindex, hb, htokens⟩ := gpuHit_eq_some.1 hgpu
      obtain ⟨htok, hh⟩ := h.kept b hnotin
      refine ⟨b, gpuHit_eq_some.2 ⟨(h.index j le_rfl).trans hindex, h.numBlocks.symm ▸ hb,
        htok.trans htokens⟩, ?_⟩
      rw [hh]
      exact of_decide_eq_true hne
    · obtain ⟨b, hindex, hany⟩ := (Option.any_eq_true _ _).1 hload
      obtain ⟨⟨c, i⟩, hmem, heq⟩ := List.any_eq_true.1 hany
      rw [Bool.and_eq_true, decide_eq_true_eq, decide_eq_true_eq] at heq
      obtain ⟨rfl, hview⟩ := heq
      obtain ⟨hi, -, hb, htok, hh⟩ := h.loaded c i hmem
      refine ⟨c, gpuHit_eq_some.2 ⟨(h.index j le_rfl).trans hindex, h.numBlocks.symm ▸ hb,
        htok.trans hview⟩, ?_⟩
      rw [hh]
      intro heq
      have := chainHash_inj hinj heq
      omega
  have hnext := h.nextHash hcaching hfull
  have hhit' : m'.gpuHit (m'.nextHash (blockView m.blockSize tokenIds j) l.h) (blockView m.blockSize tokenIds j) =
      some b := by rw [hnext, hhit]
  have hl3 : m'.l3Hit (blockView m.blockSize tokenIds j) l = false := by
    rw [← Bool.not_eq_true, l3Hit_eq_true, hhit']
    rintro ⟨-, hnone, -⟩
    cases hnone
  have hmissed : m'.missed (blockView m.blockSize tokenIds j) l = false :=
    missed_eq_false.2 ⟨h.cacheMiss, .inl ⟨b, hhit'⟩⟩
  -- the round takes the entry: nothing is missing, and nothing is loaded
  cases allocateBlock_cases h.parts.freeInRange (blockView m.blockSize tokenIds j) l with
  | out hneeds =>
    rw [hmissed, hl3] at hneeds
    simp at hneeds
  | miss b' rest hl3' hmiss' =>
    rw [hmissed] at hmiss'
    cases hmiss'
  | load b' rest hl3' =>
    rw [hl3] at hl3'
    cases hl3'
  | hit b' hcm hhit'' heq =>
    obtain rfl : b = b' := Option.some.inj (hhit'.symm.trans hhit'')
    refine ⟨_, _, heq, fun hsound => ?_⟩
    have hcount : (m'.nextLoop (blockView m.blockSize tokenIds j) l b false
        (decide ((blockView m.blockSize tokenIds j).length = m'.blockSize))).numPrefixCached =
          l.numPrefixCached + 1 := by
      simp [nextLoop, hfull, h.blockSize]
    obtain ⟨c, htable, hc⟩ := hsound hcount
    obtain rfl : b = c := by simpa [nextLoop] using htable
    rcases hc with hc | ⟨-, hqueue⟩
    · exact hhash hc
    · have hsame : ((m'.reuse b).record (m'.nextHash (blockView m.blockSize tokenIds j) l.h)
          (blockView m.blockSize tokenIds j) b).pendingLoads = m'.pendingLoads := by
        unfold record
        split_ifs <;> rfl
      rw [hsame] at hqueue
      simpa using congrArg List.length hqueue

theorem allocateBlock_caching (hm : m.Parts) (view : List ℤ) (l : AllocLoop) :
    (m.allocateBlock view l).2.prefixCachingEnabled = m.prefixCachingEnabled := by
  have hrecord : ∀ (m₁ : BlockManager) (h : ℤ) (b : ℕ), (m₁.record h view b).prefixCachingEnabled =
    m₁.prefixCachingEnabled := by
    intro m₁ h b
    unfold record
    split_ifs <;> rfl
  cases allocateBlock_cases hm.freeInRange view l with
  | out _ _ heq => rw [heq]
  | miss b rest _ _ _ heq =>
    rw [heq]
    exact hrecord _ _ _
  | load b rest _ _ heq =>
    rw [heq]
    exact hrecord _ _ _
  | hit b _ _ heq =>
    rw [heq]
    exact hrecord _ _ _

theorem allocateBlocks_caching (hm : m.Parts) (hok : m.allocateBlocks tokenIds j = (.ok l, m')) :
    m'.prefixCachingEnabled = m.prefixCachingEnabled := by
  induction j generalizing l m' with
  | zero =>
    cases hok
    rfl
  | succ j ih =>
    cases hbefore : m.allocateBlocks tokenIds j with
    | mk r m₁ =>
      cases r with
      | error e =>
        rw [allocateBlocks_error hbefore 1] at hok
        cases hok
      | ok l₁ =>
        rw [allocateBlocks_succ hbefore] at hok
        have h := allocateBlock_caching (allocateBlocks_ok hm hbefore).parts (blockView m₁.blockSize tokenIds j) l₁
        rw [hok] at h
        exact h.trans (ih hbefore)

/-- Up to a stale entry the loop follows the plan, and counts nothing after it. -/
theorem follows_plan (hinj : BlockPool.HashInjective) (hm : m.Parts) (hcaching : m.prefixCachingEnabled = true)
    (hclean : ∀ i < j, (blockView m.blockSize tokenIds i).length = m.blockSize →
      ∀ p, m.plan tokenIds i = some p →
      m.stale tokenIds i p = false) :
    (∃ p l m₁, m.plan tokenIds j = some p ∧ m.allocateBlocks tokenIds j = (.ok l, m₁) ∧
      Follows m tokenIds j p l m₁) ∨
    (m.plan tokenIds j = none ∧ ∀ l m₁, m.allocateBlocks tokenIds j = (.ok l, m₁) →
      l.cacheMiss = true ∧ m₁.Parts) := by
  induction j with
  | zero =>
    refine .inl ⟨⟨m.freeBlockIds, []⟩, {}, m, rfl, rfl, ?_⟩
    exact ⟨rfl, rfl, hm, rfl, rfl, rfl, rfl, rfl, rfl, fun _ _ => ⟨rfl, rfl⟩, fun _ _ hin =>
      absurd hin List.not_mem_nil,
      fun _ _ => rfl⟩
  | succ j ih =>
    rcases ih fun i hi => hclean i (Nat.lt_succ_of_lt hi) with
      ⟨p, l, m₁, hplan, hok, hfollows⟩ | ⟨hplan, hmissed⟩
    · rcases hfollows.round hinj hcaching fun hfull => hclean j (Nat.lt_succ_self j) hfull p hplan with
        ⟨p', l', m₂, hstep, hround, hfollows', -⟩ | ⟨hround, hstep⟩
      · exact .inl
          ⟨p', l', m₂, by rw [plan, hplan]; exact hround, (allocateBlocks_succ hok).trans hstep, hfollows'⟩
      · refine .inr
          ⟨by rw [plan,
            hplan]; exact hround, fun l' m₂ hok' => ⟨(hstep l' m₂ ?_).1, (allocateBlocks_ok hm hok').parts⟩⟩
        rwa [allocateBlocks_succ hok] at hok'
    · refine .inr ⟨by rw [plan, hplan]; rfl, fun l' m₂ hok' => ⟨?_, (allocateBlocks_ok hm hok').parts⟩⟩
      cases hbefore : m.allocateBlocks tokenIds j with
      | mk r m₁ =>
        cases r with
        | error e =>
          rw [allocateBlocks_error hbefore 1] at hok'
          cases hok'
        | ok l =>
          obtain ⟨hmiss, hp⟩ := hmissed l m₁ hbefore
          rw [allocateBlocks_succ hbefore] at hok'
          exact (round_missed hp (.inl hmiss) hok').1

/-- The hits of a call are sound if and only if no place up to its first miss has a stale entry. -/
theorem hitsSound_iff (hinj : BlockPool.HashInjective) (hm : m.Parts) (seq : Sequence) :
    m.HitsSound seq ↔ m.cleanHits seq = true := by
  cases hhold : m.holdsTable seq with
  | true => simp [HitsSound, cleanHits, hhold]
  | false =>
    -- without the prefix cache every block has the mark -1 and none is counted
    cases hcaching : m.prefixCachingEnabled with
    | false =>
      refine iff_of_true (fun _ j _ l m₁ l' m₂ hok hok' hcount => ?_) (by simp [cleanHits, hcaching])
      have hmark : m₁.nextHash (blockView m₁.blockSize seq.tokenIds j) l.h = -1 := by
        rw [nextHash, allocateBlocks_caching hm hok, hcaching]
        rfl
      rw [allocateBlocks_succ hok] at hok'
      have := (round_missed (allocateBlocks_ok hm hok).parts (.inr hmark) hok').2
      omega
    | true =>
      have hclean : m.cleanHits seq = true ↔ ∀ j < m.numBlocksForSeq seq,
          (blockView m.blockSize seq.tokenIds j).length = m.blockSize → ∀ p, m.plan seq.tokenIds j = some p →
            m.stale seq.tokenIds j p = false := by
        simp only [cleanHits, hhold, hcaching, Bool.not_true, Bool.false_or, List.all_eq_true, List.mem_range,
          Bool.or_eq_true, decide_eq_true_eq, Option.all_eq_true, Bool.not_eq_true']
        exact forall₂_congr fun j _ => by tauto
      rw [hclean]
      constructor
      · intro hsound j hj
        induction j using Nat.strong_induction_on with
        | _ j ih =>
          intro hfull p hplan
          by_contra hstale
          rw [Bool.not_eq_false] at hstale
          rcases follows_plan hinj hm hcaching fun i hi => ih i hi (hi.trans hj) with
            ⟨p', l, m₁, hplan', hok, hfollows⟩ | ⟨hnone, -⟩
          · obtain rfl : p = p' := Option.some.inj (hplan.symm.trans hplan')
            obtain ⟨l', m₂, hstep, hunsound⟩ := hfollows.unsound hinj hcaching hfull hstale
            exact hunsound (hsound hhold j hj l m₁ l' m₂ hok ((allocateBlocks_succ hok).trans hstep))
          · rw [hplan] at hnone
            cases hnone
      · intro hclean _ j hj l m₁ l' m₂ hok hok'
        rw [allocateBlocks_succ hok] at hok'
        rcases follows_plan hinj hm hcaching fun i hi => hclean i (hi.trans hj) with
          ⟨p, l₁, m₁', hplan, hok₁, hfollows⟩ | ⟨-, hmissed⟩
        · rw [hok] at hok₁
          cases hok₁
          rcases hfollows.round hinj hcaching fun hfull => hclean j hj hfull p hplan with
            ⟨p', l₂, m₂', hstep, -, -, hsound⟩ | ⟨-, hstep⟩
          · rw [hok'] at hstep
            cases hstep
            exact hsound
          · intro hcount
            have := (hstep l' m₂ hok').2
            omega
        · intro hcount
          obtain ⟨hmiss, hp⟩ := hmissed l m₁ hok
          have := (round_missed hp (.inl hmiss) hok').2
          omega

end BlockManager

open L3State

/-- **Prefix hits of the manager**: after any run the hits of a call are sound if and only if, up to the first miss, the
index gives no block with the tokens looked for that was assigned to another prefix. -/
theorem l3_hits_sound_iff [Xxh3] (hinj : BlockPool.HashInjective) {s : L3State}
    (h : Reachable l3System always s) (i : ℕ) :
    s.manager.HitsSound (s.seqs i) ↔ s.manager.cleanHits (s.seqs i) = true :=
  BlockManager.hitsSound_iff hinj ((tracked_invariant always).holds h).parts (s.seqs i)

section witness

attribute [local instance] codeHash

/-- Three blocks of one token; sequence 1 has another first token. -/
def threeBlocks : L3State := ⟨BlockManager.new 0 3 1, fun i => Sequence.new i (if i = 1 then [2, 9] else [1, 9]) {}⟩

theorem initial_threeBlocks : l3System.initial threeBlocks := ⟨⟨0, 3, 1, rfl⟩, fun _ => ⟨rfl, rfl⟩⟩

/-- The block of the second token is handed out again behind another first token, and is hit all the same. -/
theorem hits_not_sound : ¬ ∀ s, Reachable l3System always s → ∀ i, s.manager.HitsSound (s.seqs i) := by
  intro h
  obtain ⟨s, hreach, hclean⟩ := Reachable.exists_of_run (T := l3System) (G := always)
    (P := fun s => !s.manager.cleanHits (s.seqs 2)) [.allocate 0, .deallocate 0, .allocate 1] initial_threeBlocks
    (by decide +kernel)
  have hparts := ((tracked_invariant always).holds hreach).parts
  have hsound := (BlockManager.hitsSound_iff BlockPool.hashInjective_codeHash hparts (s.seqs 2)).1 (h s hreach 2)
  rw [hsound] at hclean
  cases hclean

/-- Both blocks of a freed sequence are found again. -/
theorem l3_hits_sound_iff_freed : ∃ s, Reachable l3System always s ∧ s.manager.HitsSound (s.seqs 2) ∧
    (s.manager.allocateBlocks (s.seqs 2).tokenIds 2).1.toOption.map AllocLoop.numPrefixCached = some 2 := by
  obtain ⟨s, hreach, hs⟩ := Reachable.exists_of_run (T := l3System) (G := always)
    (P := fun s => s.manager.cleanHits (s.seqs 2) && decide
      ((s.manager.allocateBlocks (s.seqs 2).tokenIds 2).1.toOption.map AllocLoop.numPrefixCached = some 2))
    [.allocate 0, .deallocate 0] initial_threeBlocks (by decide +kernel)
  rw [Bool.and_eq_true] at hs
  exact ⟨s, hreach, (l3_hits_sound_iff BlockPool.hashInjective_codeHash hreach 2).2 hs.1, of_decide_eq_true hs.2⟩

end witness

end NanoEngine
