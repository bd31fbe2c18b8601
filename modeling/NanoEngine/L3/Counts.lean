import NanoEngine.L3.Manager
import NanoEngine.Lib.Counting
import NanoEngine.Lib.Transition

/-!
# NanoEngine.L3.Counts — the blocks of the manager are conserved

* `L3System`: a manager and the sequences that it is called with.
* `Parts`: every block is free or used, and a used block has references.
* `Takes`: what the rounds of `allocate` do to the references.
* `canAllocate_ok`: a positive answer of `can_allocate` is a promise.
* `runsOutLate`: the loop of `allocate` returns early with blocks in its hands.
* `l3_conserved`.
-/

namespace NanoEngine

open Transition Counting

namespace BlockManager

/-- Free and used blocks are the blocks of the manager. -/
structure Parts (m : BlockManager) : Prop where
  blockSize_pos : 0 < m.blockSize
  free_nodup : m.freeBlockIds.Nodup
  lt_iff : ∀ b, b < m.numBlocks ↔ b ∈ m.freeBlockIds ∨ b ∈ m.usedBlockIds
  disjoint : ∀ b ∈ m.freeBlockIds, b ∉ m.usedBlockIds
  refCount_pos : ∀ b ∈ m.usedBlockIds, 0 < (m.blocks b).refCount
  refCount_free : ∀ b, b ∉ m.usedBlockIds → (m.blocks b).refCount = 0
  index_mark : m.hashToBlockId (-1) = none

/-- `m'` has the blocks of `table` more in use than `m`. -/
structure Takes (m m' : BlockManager) (table : List ℕ) : Prop where
  parts : m'.Parts
  groupId : m'.groupId = m.groupId
  blockSize : m'.blockSize = m.blockSize
  numBlocks : m'.numBlocks = m.numBlocks
  refCount : ∀ b, (m'.blocks b).refCount = (m.blocks b).refCount + table.count b
  free_length : m.freeBlockIds.length ≤ m'.freeBlockIds.length + table.length

namespace Parts

variable {m m' : BlockManager}

theorem freeInRange (hm : m.Parts) : m.FreeInRange := fun b hb => (hm.lt_iff b).2 (.inl hb)

theorem used_lt (hm : m.Parts) {b : ℕ} (hb : b ∈ m.usedBlockIds) : b < m.numBlocks := (hm.lt_iff b).2 (.inr hb)

theorem takes_nil (hm : m.Parts) : Takes m m [] := ⟨hm, rfl, rfl, rfl, fun b => by simp, by simp⟩

/-- One block more is in use: it is free no longer and has one reference more. -/
theorem take (hm : m.Parts) {b : ℕ} (hb : b < m.numBlocks)
    (hfree : m'.freeBlockIds = m.freeBlockIds.filter fun id => decide (id ≠ b))
    (hused : m'.usedBlockIds = insert b m.usedBlockIds) (hrc : (m'.blocks b).refCount = (m.blocks b).refCount + 1)
    (hother : ∀ c, c ≠ b → m'.blocks c = m.blocks c) (hgroup : m'.groupId = m.groupId)
    (hsize : m'.blockSize = m.blockSize) (hnum : m'.numBlocks = m.numBlocks)
    (hmark : m'.hashToBlockId (-1) = none) : Takes m m' [b] := by
  -- `b` alone changes sides, so each part is as before away from it
  refine ⟨⟨hsize ▸ hm.blockSize_pos, ?_, fun c => ?_, fun c hc => ?_, fun c hc => ?_, fun c hc => ?_, hmark⟩,
    hgroup, hsize,
    hnum, fun c => ?_, ?_⟩
  · rw [hfree]
    exact hm.free_nodup.filter _
  · rw [hfree, hused, hnum, List.mem_filter, Finset.mem_insert, decide_eq_true_eq, hm.lt_iff c]
    rcases eq_or_ne c b with rfl | hne
    · have := (hm.lt_iff c).1 hb
      tauto
    · tauto
  · rw [hfree, List.mem_filter, decide_eq_true_eq] at hc
    rw [hused, Finset.mem_insert, not_or]
    exact ⟨hc.2, hm.disjoint c hc.1⟩
  · rcases eq_or_ne c b with rfl | hne
    · omega
    · rw [hused, Finset.mem_insert] at hc
      rw [hother c hne]
      exact hm.refCount_pos c (hc.resolve_left hne)
  · rw [hused, Finset.mem_insert, not_or] at hc
    rw [hother c hc.1]
    exact hm.refCount_free c hc.2
  · rcases eq_or_ne c b with rfl | hne
    · simpa using hrc
    · simp [hother c hne, Ne.symm hne]
  · have herase : m.freeBlockIds.erase b = m.freeBlockIds.filter fun id => decide (id ≠ b) :=
      (hm.free_nodup.erase_eq_filter b).trans (List.filter_congr fun c _ => Bool.eq_iff_iff.2 (by simp))
    have hlen : m.freeBlockIds.length - 1 ≤ (m.freeBlockIds.erase b).length := List.le_length_erase
    rw [hfree, ← herase, List.length_singleton]
    omega

theorem takeFree (hm : m.Parts) {b : ℕ} {rest : List ℕ} (hfree : m.freeBlockIds = b :: rest) :
    Takes m (m.takeFree b rest) [b] := by
  have hmem : b ∈ m.freeBlockIds := hfree ▸ List.mem_cons_self
  refine hm.take (hm.freeInRange b hmem) ?_ rfl ?_ (fun c hc => Function.update_of_ne hc _ _) rfl rfl rfl hm.index_mark
  · rw [hfree]
    simp [BlockManager.takeFree]
  · rw [hm.refCount_free b (hm.disjoint b hmem)]
    simp [BlockManager.takeFree]

theorem reuse_free (hm : m.Parts) (b : ℕ) :
    (m.reuse b).freeBlockIds = m.freeBlockIds.filter fun id => decide (id ≠ b) := by
  show (if _ then _ else _) = _
  split_ifs with hused
  · refine (List.filter_eq_self.2 fun c hc => decide_eq_true ?_).symm
    rintro rfl
    exact hm.disjoint c hc hused
  · rfl

theorem reuse (hm : m.Parts) {b : ℕ} (hb : b < m.numBlocks) : Takes m (m.reuse b) [b] := by
  refine hm.take hb (hm.reuse_free b) rfl ?_ (fun c hc => Function.update_of_ne hc _ _) rfl rfl rfl hm.index_mark
  simp [BlockManager.reuse]

end Parts

namespace Takes

variable {m m' m'' : BlockManager} {table table' : List ℕ}

theorem trans (h : Takes m m' table) (h' : Takes m' m'' table') : Takes m m'' (table ++ table') where
  parts := h'.parts
  groupId := h'.groupId.trans h.groupId
  blockSize := h'.blockSize.trans h.blockSize
  numBlocks := h'.numBlocks.trans h.numBlocks
  refCount b := by rw [h'.refCount, h.refCount, List.count_append, Nat.add_assoc]
  free_length := by
    have h₁ := h.free_length
    have h₂ := h'.free_length
    rw [List.length_append]
    omega

/-- Writing hash and tokens of a used block keeps all counts. -/
theorem record (h : Takes m m' table) {b : ℕ} (hb : b ∈ m'.usedBlockIds) (hash : ℤ) (view : List ℤ) :
    Takes m (m'.record hash view b) table := by
  unfold BlockManager.record
  split_ifs with hmark
  · have hrc : ∀ c, (Function.update m'.blocks b ((m'.blocks b).update hash view) c).refCount =
      (m'.blocks c).refCount := by
      intro c
      rcases eq_or_ne c b with rfl | hne
      · rw [Function.update_self]
        exact max_eq_left (h.parts.refCount_pos c hb)
      · rw [Function.update_of_ne hne]
    refine ⟨⟨h.parts.blockSize_pos, h.parts.free_nodup, h.parts.lt_iff, h.parts.disjoint,
      fun c hc => ?_, fun c hc => ?_, ?_⟩,
      h.groupId, h.blockSize, h.numBlocks, fun c => ?_, h.free_length⟩
    · exact (hrc c).symm ▸ h.parts.refCount_pos c hc
    · exact (hrc c).trans (h.parts.refCount_free c hc)
    · exact (Function.update_of_ne (Ne.symm hmark) _ _).trans h.parts.index_mark
    · exact (hrc c).trans (h.refCount c)
  · exact h

theorem queueLoad (h : Takes m m' table) (hash : ℤ) (b : ℕ) : Takes m (m'.queueLoad hash b) table :=
  ⟨⟨h.parts.blockSize_pos, h.parts.free_nodup, h.parts.lt_iff, h.parts.disjoint, h.parts.refCount_pos,
    h.parts.refCount_free, h.parts.index_mark⟩, h.groupId, h.blockSize, h.numBlocks, h.refCount, h.free_length⟩

end Takes

/-- What `allocate` reads of the manager is as before, but for the hashes of the blocks. -/
structure SameLookup (m m' : BlockManager) : Prop where
  blockSize : m'.blockSize = m.blockSize
  numBlocks : m'.numBlocks = m.numBlocks
  caching : m'.prefixCachingEnabled = m.prefixCachingEnabled
  index : m'.hashToBlockId = m.hashToBlockId
  tokenIds : ∀ b, (m'.blocks b).tokenIds = (m.blocks b).tokenIds
  used : m'.usedBlockIds = m.usedBlockIds
  free : m'.freeBlockIds = m.freeBlockIds

theorem SameLookup.gpuHit {m m' : BlockManager} (h : SameLookup m m') (hash : ℤ) (view : List ℤ) :
    m'.gpuHit hash view = m.gpuHit hash view := by
  unfold BlockManager.gpuHit
  rw [h.index, h.numBlocks]
  simp only [h.tokenIds]

/-- A hit on a used block changes no look-up. -/
theorem SameLookup.hit {m m' : BlockManager} (h : SameLookup m m') {b : ℕ} {hash : ℤ} {view : List ℤ}
    (hused : b ∈ m.usedBlockIds) (hhit : m.gpuHit hash view = some b) :
    SameLookup m ((m'.reuse b).record hash view b) := by
  obtain ⟨hindex, -, htokens⟩ := gpuHit_eq_some.1 hhit
  have hused' : b ∈ m'.usedBlockIds := h.used ▸ hused
  have hfree : (m'.reuse b).freeBlockIds = m.freeBlockIds := (if_pos hused').trans h.free
  have hins : (m'.reuse b).usedBlockIds = m.usedBlockIds := (Finset.insert_eq_of_mem hused').trans h.used
  have hreuse : ∀ c, ((m'.reuse b).blocks c).tokenIds = (m.blocks c).tokenIds := by
    intro c
    rw [← h.tokenIds c]
    show (Function.update m'.blocks b _ c).tokenIds = _
    rcases eq_or_ne c b with rfl | hne
    · rw [Function.update_self]
    · rw [Function.update_of_ne hne]
  unfold BlockManager.record
  split_ifs with hmark
  · refine ⟨h.blockSize, h.numBlocks, h.caching, ?_, fun c => ?_, hins, hfree⟩
    · show Function.update m'.hashToBlockId hash (some b) = _
      rw [h.index, ← hindex, Function.update_eq_self]
    · rw [← hreuse c]
      show (Function.update (m'.reuse b).blocks b _ c).tokenIds = _
      rcases eq_or_ne c b with rfl | hne
      · rw [Function.update_self, hreuse c, htokens]
        rfl
      · rw [Function.update_of_ne hne]
  · exact ⟨h.blockSize, h.numBlocks, h.caching, h.index, hreuse, hins, hfree⟩

variable [Xxh3] {m : BlockManager}

/-- There is no free block for a block that needs one. -/
def outOfBlocks (m : BlockManager) (view : List ℤ) (l : AllocLoop) : Bool :=
  m.freeBlockIds.isEmpty && (m.missed view l || m.l3Hit view l)

theorem outOfBlocks_eq_true {view : List ℤ} {l : AllocLoop} :
    m.outOfBlocks view l = true ↔ m.freeBlockIds = [] ∧ (m.missed view l = true ∨ m.l3Hit view l = true) := by
  simp [outOfBlocks]

/-- A round hands out one block, or there is none and nothing changes. -/
theorem allocateBlock_takes (hm : m.Parts) (view : List ℤ) (l : AllocLoop) :
    (m.outOfBlocks view l = true ∧ m.allocateBlock view l = (.error .noFreeBlocks, m)) ∨
    (m.outOfBlocks view l = false ∧ ∃ b l' m', m.allocateBlock view l = (.ok l', m') ∧
      l'.newTable = l.newTable ++ [b] ∧ Takes m m' [b]) := by
  have hsome : ∀ {b : ℕ} {rest : List ℕ}, m.freeBlockIds = b :: rest →
    m.outOfBlocks view l = false := fun h => by
    simp [outOfBlocks, h]
  cases allocateBlock_cases hm.freeInRange view l with
  | out hneeds hfree heq => exact .inl ⟨outOfBlocks_eq_true.2 ⟨hfree, hneeds⟩, heq⟩
  | miss b rest hl3 hmiss hfree heq =>
    exact .inr ⟨hsome hfree, b, _, _, heq, rfl, (hm.takeFree hfree).record (Finset.mem_insert_self _ _) _ _⟩
  | load b rest hl3 hfree heq =>
    exact .inr ⟨hsome hfree, b, _, _, heq, rfl,
      ((hm.takeFree hfree).queueLoad _ _).record (Finset.mem_insert_self _ _) _ _⟩
  | hit b hmiss hhit heq =>
    have hb := (gpuHit_eq_some.1 hhit).2.1
    have hl3 : m.l3Hit view l = false := by
      rw [← Bool.not_eq_true, l3Hit_eq_true, hhit]
      rintro ⟨-, hnone, -⟩
      cases hnone
    have hmissed : m.missed view l = false := missed_eq_false.2 ⟨hmiss, .inl ⟨b, hhit⟩⟩
    exact .inr ⟨by simp [outOfBlocks, hl3, hmissed], b, _, _, heq, rfl,
      (hm.reuse hb).record (Finset.mem_insert_self _ _) _ _⟩

/-- The loop ends with round `j`. -/
def stuckAt (m : BlockManager) (tokenIds : List ℤ) (j : ℕ) : Bool :=
  (m.allocateBlocks tokenIds j).1.toOption.any fun l =>
    (m.allocateBlocks tokenIds j).2.outOfBlocks
      (blockView (m.allocateBlocks tokenIds j).2.blockSize tokenIds j) l

theorem allocateBlocks_succ {tokenIds : List ℤ} {n : ℕ} {l : AllocLoop} {m' : BlockManager}
    (h : m.allocateBlocks tokenIds n = (.ok l, m')) :
    m.allocateBlocks tokenIds (n + 1) = m'.allocateBlock (blockView m'.blockSize tokenIds n) l := by
  rw [allocateBlocks, h]

theorem allocateBlocks_error {tokenIds : List ℤ} {n : ℕ} {e : L3Err} {m' : BlockManager}
    (h : m.allocateBlocks tokenIds n = (.error e, m')) (k : ℕ) :
    m.allocateBlocks tokenIds (n + k) = (.error e, m') := by
  induction k with
  | zero => exact h
  | succ k ih => rw [← Nat.add_assoc, allocateBlocks, ih]

/-- The loop hands out a block in every round, up to one that it is stuck at. -/
theorem allocateBlocks_cases (hm : m.Parts) (tokenIds : List ℤ) (n : ℕ) :
    (∃ l m', m.allocateBlocks tokenIds n = (.ok l, m') ∧ Takes m m' l.newTable ∧ l.newTable.length = n ∧
      ∀ j < n, m.stuckAt tokenIds j = false) ∨
    ∃ j l m', j < n ∧ m.stuckAt tokenIds j = true ∧ (∀ i < n, m.stuckAt tokenIds i = true → i = j) ∧
      Takes m m' l.newTable ∧ l.newTable.length = j ∧ m.allocateBlocks tokenIds j = (.ok l, m') ∧
      m.allocateBlocks tokenIds n = (.error .noFreeBlocks, m') := by
  induction n with
  | zero => exact .inl ⟨{}, m, rfl, hm.takes_nil, rfl, fun j hj => absurd hj (Nat.not_lt_zero j)⟩
  -- either every round before succeeded, and this one decides, or one was stuck already
  | succ n ih =>
    rcases ih with ⟨l, m', hok, htakes, hlen, hfree⟩ | ⟨j, l, m', hj, hstuck, huniq, htakes, hlen, hok, herr⟩
    · have hstuckAt : m.stuckAt tokenIds n = m'.outOfBlocks (blockView m'.blockSize tokenIds n) l := by
        simp [stuckAt, hok, Except.toOption]
      rcases allocateBlock_takes htakes.parts (blockView m'.blockSize tokenIds n) l with
        ⟨hout, heq⟩ | ⟨hin, b, l', m'', heq, htable, htakes'⟩
      · refine .inr ⟨n, l, m', Nat.lt_succ_self n, hstuckAt.trans hout, fun i hi hstuck => ?_, htakes, hlen, hok,
          (allocateBlocks_succ hok).trans heq⟩
        rcases Nat.lt_succ_iff_lt_or_eq.1 hi with hlt | rfl
        · rw [hfree i hlt] at hstuck
          cases hstuck
        · rfl
      · refine .inl ⟨l', m'', (allocateBlocks_succ hok).trans heq,
          htable ▸ htakes.trans htakes', ?_, fun j hj => ?_⟩
        · rw [htable, List.length_append, hlen, List.length_singleton]
        · rcases Nat.lt_succ_iff_lt_or_eq.1 hj with hlt | rfl
          · exact hfree j hlt
          · exact hstuckAt.trans hin
    · refine .inr ⟨j, l, m', Nat.lt_succ_of_lt hj, hstuck, fun i hi hi' => ?_, htakes, hlen, hok,
        allocateBlocks_error herr 1⟩
      rcases Nat.lt_succ_iff_lt_or_eq.1 hi with hlt | rfl
      · exact huniq i hlt hi'
      · simp [stuckAt, herr, Except.toOption] at hi'

theorem allocateBlocks_ok (hm : m.Parts) {tokenIds : List ℤ} {n : ℕ} {l : AllocLoop} {m' : BlockManager}
    (hok : m.allocateBlocks tokenIds n = (.ok l, m')) : Takes m m' l.newTable := by
  rcases allocateBlocks_cases hm tokenIds n with ⟨_, _, h, htakes, -⟩ | ⟨-, _, _, -, -, -, -, -, -, h⟩
  · rw [hok] at h
    cases h
    exact htakes
  · rw [hok] at h
    cases h

/-! ## The promise of `can_allocate` -/

/-- Block `j` is a hit on a block in use. -/
def ActiveHit (m : BlockManager) (tokenIds : List ℤ) (j : ℕ) : Prop :=
  (blockView m.blockSize tokenIds j).length = m.blockSize ∧
    ∃ b ∈ m.usedBlockIds, m.gpuHit (chainHash m.blockSize tokenIds (j + 1))
      (blockView m.blockSize tokenIds j) = some b

theorem activeHitsLoop_spec (m : BlockManager) (tokenIds : List ℤ) (n blockIdx : ℕ) :
    m.activeHitsLoop tokenIds n blockIdx (chainHash m.blockSize tokenIds blockIdx) ≤ n ∧
      ∀ i < m.activeHitsLoop tokenIds n blockIdx (chainHash m.blockSize tokenIds blockIdx),
        m.ActiveHit tokenIds (blockIdx + i) := by
  induction n generalizing blockIdx with
  | zero => exact ⟨le_rfl, fun i hi => absurd hi (Nat.not_lt_zero i)⟩
  | succ n ih =>
    have hchain : computeBlockHash (blockView m.blockSize tokenIds blockIdx) (chainHash m.blockSize tokenIds blockIdx) =
        chainHash m.blockSize tokenIds (blockIdx + 1) := rfl
    rw [activeHitsLoop]
    dsimp only
    rw [hchain]
    split
    · exact ⟨Nat.zero_le _, fun i hi => absurd hi (Nat.not_lt_zero i)⟩
    · rename_i hfull
      split
      · exact ⟨Nat.zero_le _, fun i hi => absurd hi (Nat.not_lt_zero i)⟩
      · rename_i b hindex
        split
        · rename_i hb
          obtain ⟨hle, hhits⟩ := ih (blockIdx + 1)
          refine ⟨Nat.succ_le_succ hle, fun i hi => ?_⟩
          cases i with
          | zero => exact ⟨not_not.1 hfull, b, hb.1, gpuHit_eq_some.2 ⟨hindex, hb.2⟩⟩
          | succ i =>
            rw [← Nat.add_assoc, Nat.add_right_comm]
            exact hhits i (Nat.lt_of_succ_lt_succ hi)
        · exact ⟨Nat.zero_le _, fun i hi => absurd hi (Nat.not_lt_zero i)⟩

/-- Hits on used blocks take no block from the free ones. -/
theorem allocateBlocks_activeHits (hm : m.Parts) (hcaching : m.prefixCachingEnabled = true)
    {tokenIds : List ℤ} {k : ℕ} (hhits : ∀ i < k, m.ActiveHit tokenIds i) :
    ∃ l m', m.allocateBlocks tokenIds k = (.ok l, m') ∧ l.cacheMiss = false ∧
      l.h = chainHash m.blockSize tokenIds k ∧ SameLookup m m' := by
  induction k with
  | zero => exact ⟨{}, m, rfl, rfl, rfl, rfl, rfl, rfl, rfl, fun _ => rfl, rfl, rfl⟩
  | succ k ih =>
    obtain ⟨l, m', hok, hmiss, hl, hsame⟩ := ih fun i hi => hhits i (Nat.lt_succ_of_lt hi)
    obtain ⟨hfull, b, hused, hhit⟩ := hhits k (Nat.lt_succ_self k)
    have hparts : m'.Parts := (allocateBlocks_ok hm hok).parts
    have hnext : m'.nextHash (blockView m'.blockSize tokenIds k) l.h = chainHash m.blockSize tokenIds (k + 1) := by
      unfold nextHash
      rw [hsame.caching, hcaching, hsame.blockSize, hl, hfull]
      simp [chainHash]
    have hhit' : m'.gpuHit (m'.nextHash (blockView m'.blockSize tokenIds k) l.h) (blockView m'.blockSize tokenIds k) =
        some b := by
      rw [hsame.gpuHit, hnext, hsame.blockSize]
      exact hhit
    have hsome : m'.gpuHit (m'.nextHash (blockView m'.blockSize tokenIds k) l.h) (blockView m'.blockSize tokenIds k) ≠
        none := by rw [hhit']; exact Option.some_ne_none b
    -- no block was missed so far, so the lookup is made
    have hmissed : m'.missed (blockView m'.blockSize tokenIds k) l = false :=
      missed_eq_false.2 ⟨hmiss, .inl ⟨b, hhit'⟩⟩
    have hstep := allocateBlocks_succ hok
    cases allocateBlock_cases hparts.freeInRange (blockView m'.blockSize tokenIds k) l with
    | out hneeds =>
      rw [hmissed] at hneeds
      exact absurd (l3Hit_eq_true.1 (hneeds.resolve_left Bool.false_ne_true)).2.1 hsome
    | miss b' rest hl3 hmiss' =>
      rw [hmissed] at hmiss'
      cases hmiss'
    | load b' rest hl3 => exact absurd (l3Hit_eq_true.1 hl3).2.1 hsome
    | hit b' hmiss' hhit'' heq =>
      obtain rfl : b = b' := Option.some.inj (hhit'.symm.trans hhit'')
      refine ⟨_, _, hstep.trans heq, rfl, hnext, ?_⟩
      rw [hnext, hsame.blockSize]
      exact hsame.hit hused hhit

/-- With enough free blocks the loop goes on. -/
theorem allocateBlocks_room (hm : m.Parts) {tokenIds : List ℤ} {k : ℕ} {l : AllocLoop} {m' : BlockManager}
    (hok : m.allocateBlocks tokenIds k = (.ok l, m')) {d : ℕ} (hd : d ≤ m'.freeBlockIds.length) :
    ∃ l' m'', m.allocateBlocks tokenIds (k + d) = (.ok l', m'') ∧
      m'.freeBlockIds.length ≤ m''.freeBlockIds.length + d := by
  induction d with
  | zero => exact ⟨l, m', hok, le_rfl⟩
  | succ d ih =>
    obtain ⟨l', m'', hok', hlen⟩ := ih (Nat.le_of_succ_le hd)
    have hparts : m''.Parts := (allocateBlocks_ok hm hok').parts
    rcases allocateBlock_takes hparts (blockView m''.blockSize tokenIds (k + d)) l' with
      ⟨hout, -⟩ | ⟨-, b, l₂, m₂, heq, -, htakes⟩
    · have hnil := (outOfBlocks_eq_true.1 hout).1
      rw [hnil, List.length_nil] at hlen
      omega
    · refine ⟨l₂, m₂, (allocateBlocks_succ hok').trans heq, ?_⟩
      have h := htakes.free_length
      rw [List.length_singleton] at h
      omega

/-- `can_allocate` promises that `allocate` succeeds. -/
theorem canAllocate_ok (hm : m.Parts) {seq : Sequence} (hseq : m.holdsTable seq = false) {hits : ℕ}
    (hcan : m.canAllocate seq = some hits) : (m.allocate seq).1 = .ok () := by
  have hroom : m.numBlocksForSeq seq - m.countActivePrefixHits seq ≤ m.freeBlockIds.length := by
    unfold canAllocate at hcan
    dsimp only at hcan
    split at hcan
    · assumption
    · cases hcan
  obtain ⟨k, l, m', hk, hok, hfree⟩ : ∃ k l m', k ≤ m.numBlocksForSeq seq ∧
      m.allocateBlocks seq.tokenIds k = (.ok l, m') ∧ m.numBlocksForSeq seq - k ≤ m'.freeBlockIds.length := by
    unfold countActivePrefixHits at hroom
    split_ifs at hroom with hcaching
    · obtain ⟨hle, hhits⟩ := activeHitsLoop_spec m seq.tokenIds (m.numBlocksForSeq seq) 0
      obtain ⟨l, m', hok, -, -, hsame⟩ :=
        allocateBlocks_activeHits hm hcaching fun i hi => by simpa using hhits i hi
      exact ⟨_, l, m', hle, hok, hsame.free ▸ hroom⟩
    · exact ⟨0, {}, m, Nat.zero_le _, rfl, hroom⟩
  obtain ⟨l', m'', hall, -⟩ := allocateBlocks_room hm hok hfree
  rw [Nat.add_sub_cancel' hk] at hall
  rw [allocate_ok hseq hall]

/-! ## Failures -/

/-- The early return of `allocate` is taken after the first block. -/
def runsOutLate (m : BlockManager) (seq : Sequence) : Bool :=
  !m.holdsTable seq && (List.range (m.numBlocksForSeq seq)).any fun j => decide (0 < j) && m.stuckAt seq.tokenIds j

/-- The free and the used blocks and the references are as before. -/
def SameCounts (m m' : BlockManager) : Prop :=
  m'.freeBlockIds = m.freeBlockIds ∧ m'.usedBlockIds = m.usedBlockIds ∧
    ∀ b, (m'.blocks b).refCount = (m.blocks b).refCount

/-- A failed `allocate` changes no count, if and only if it does not return after its first block. -/
theorem failed_sameCounts_iff (hm : m.Parts) {seq : Sequence} {e : L3Err} (hfail : (m.allocate seq).1 = .error e) :
    SameCounts m (m.allocate seq).2.1 ∧ (m.allocate seq).2.2 = seq ↔ m.runsOutLate seq = false := by
  cases hseq : m.holdsTable seq with
  | true =>
    rw [allocate_holding hseq]
    simp [SameCounts, runsOutLate, hseq]
  | false =>
    rcases allocateBlocks_cases hm seq.tokenIds (m.numBlocksForSeq seq) with
      ⟨l, m', hok, -⟩ | ⟨j, l, m', hj, hstuck, huniq, htakes, hlen, hok, herr⟩
    · rw [allocate_ok hseq hok] at hfail
      cases hfail
    · have hlate : m.runsOutLate seq = true ↔ 0 < j := by
        simp only [runsOutLate, hseq, Bool.not_false, Bool.true_and, List.any_eq_true, List.mem_range, Bool.and_eq_true,
          decide_eq_true_eq]
        exact ⟨fun ⟨i, hi, hpos, hstuck'⟩ => huniq i hi hstuck' ▸ hpos, fun hpos => ⟨j, hj, hpos, hstuck⟩⟩
      rw [allocate_error hseq herr, ← Bool.not_eq_true, hlate, Nat.not_lt, Nat.le_zero]
      constructor
      · rintro ⟨⟨-, -, hrc⟩, -⟩
        rw [← hlen, List.length_eq_zero_iff, List.eq_nil_iff_forall_not_mem]
        intro b hb
        have hcount := htakes.refCount b
        have hpos := List.count_pos_iff.2 hb
        have hsame : (m'.blocks b).refCount = (m.blocks b).refCount := hrc b
        omega
      · rintro rfl
        cases hok
        exact ⟨⟨rfl, rfl, fun _ => rfl⟩, rfl⟩

theorem allocate_cases (hm : m.Parts) (seq : Sequence) :
    (∃ l m', m.allocate seq = (.ok (), m', m'.withTable seq l) ∧ m.holdsTable seq = false ∧
      Takes m m' l.newTable) ∨
    ∃ e m' table, m.allocate seq = (.error e, m', seq) ∧ Takes m m' table := by
  cases hseq : m.holdsTable seq with
  | true => exact .inr ⟨_, m, [], allocate_holding hseq, hm.takes_nil⟩
  | false =>
    rcases allocateBlocks_cases hm seq.tokenIds (m.numBlocksForSeq seq) with
      ⟨l, m', hok, htakes, -⟩ | ⟨j, l, m', -, -, -, htakes, -, -, herr⟩
    · exact .inl ⟨l, m', allocate_ok hseq hok, rfl, htakes⟩
    · exact .inr ⟨_, m', l.newTable, allocate_error hseq herr, htakes⟩

/-! ## Releases -/

section release

omit [Xxh3]

theorem setBlock_refCount (m : BlockManager) (b c : ℕ) :
    ((m.setBlock b { m.blocks b with refCount := (m.blocks b).refCount - 1 }).blocks c).refCount =
      (m.blocks c).refCount - [b].count c := by
  show (Function.update m.blocks b _ c).refCount = _
  rcases eq_or_ne c b with rfl | hne
  · simp
  · simp [Function.update_of_ne hne, Ne.symm hne]

/-- One reference less; with the last one a used block is free again. -/
theorem Parts.releaseOneBlock (hm : m.Parts) (b : ℕ) :
    (m.releaseOneBlock b).Parts ∧ (m.releaseOneBlock b).numBlocks = m.numBlocks ∧
      (m.releaseOneBlock b).groupId = m.groupId ∧
      ∀ c, ((m.releaseOneBlock b).blocks c).refCount = (m.blocks c).refCount - [b].count c := by
  have hrc := setBlock_refCount m b
  -- an id outside the manager is ignored; it is not in use, so it had no reference
  by_cases hb : m.numBlocks ≤ b
  · rw [show m.releaseOneBlock b = m from if_pos hb]
    refine ⟨hm, rfl, rfl, fun c => ?_⟩
    rcases eq_or_ne b c with rfl | hne
    · rw [hm.refCount_free b fun hused => absurd (hm.used_lt hused) (Nat.not_lt.2 hb), Nat.zero_sub]
    · rw [List.count_eq_zero_of_not_mem (by simpa using hne.symm), Nat.sub_zero]
  -- a block that is free already is not freed again, whatever its count
  · by_cases hlast : (m.blocks b).refCount - 1 = 0 ∧ b ∈ m.usedBlockIds
    · obtain ⟨hzero, hused⟩ := hlast
      have hsource : m.releaseOneBlock b = _ := (if_neg hb).trans (if_pos ⟨hzero, hused⟩)
      rw [hsource]
      have hfree : b ∉ m.freeBlockIds := fun h => hm.disjoint b h hused
      refine ⟨⟨hm.blockSize_pos, ?_, fun c => ?_, fun c hc => ?_, fun c hc => ?_, fun c hc => ?_, hm.index_mark⟩,
        rfl, rfl, hrc⟩
      · show (m.freeBlockIds ++ [b]).Nodup
        rw [← List.concat_eq_append]
        exact hm.free_nodup.concat hfree
      · show c < m.numBlocks ↔ c ∈ m.freeBlockIds ++ [b] ∨ c ∈ m.usedBlockIds.erase b
        rw [List.mem_append, List.mem_singleton, Finset.mem_erase, hm.lt_iff c]
        rcases eq_or_ne c b with rfl | hne
        · tauto
        · tauto
      · change c ∈ m.freeBlockIds ++ [b] at hc
        show c ∉ m.usedBlockIds.erase b
        rw [List.mem_append, List.mem_singleton] at hc
        rw [Finset.mem_erase, not_and]
        exact fun hne => hm.disjoint c (hc.resolve_right hne)
      · obtain ⟨hne, hc⟩ := Finset.mem_erase.1 hc
        rw [hrc c, List.count_eq_zero_of_not_mem (by simpa using hne), Nat.sub_zero]
        exact hm.refCount_pos c hc
      · change c ∉ m.usedBlockIds.erase b at hc
        rw [hrc c]
        rcases eq_or_ne c b with rfl | hne
        · simpa using hzero
        · rw [hm.refCount_free c fun h => hc (Finset.mem_erase.2 ⟨hne, h⟩), Nat.zero_sub]
    · have hsource : m.releaseOneBlock b = _ := (if_neg hb).trans (if_neg hlast)
      rw [hsource]
      refine ⟨⟨hm.blockSize_pos, hm.free_nodup, hm.lt_iff, hm.disjoint, fun c hc => ?_,
        fun c hc => ?_, hm.index_mark⟩, rfl,
        rfl, hrc⟩
      · change c ∈ m.usedBlockIds at hc
        have hpos := hm.refCount_pos c hc
        rw [hrc c]
        rcases eq_or_ne c b with rfl | hne
        · have : ¬ (m.blocks c).refCount - 1 = 0 := fun h => hlast ⟨h, hc⟩
          simpa using Nat.pos_of_ne_zero this
        · rwa [List.count_eq_zero_of_not_mem (by simpa using hne), Nat.sub_zero]
      · rw [hrc c, hm.refCount_free c hc, Nat.zero_sub]

theorem Parts.releaseAll (hm : m.Parts) (table : List ℕ) :
    (table.foldl BlockManager.releaseOneBlock m).Parts ∧
      (table.foldl BlockManager.releaseOneBlock m).numBlocks = m.numBlocks ∧
      (table.foldl BlockManager.releaseOneBlock m).groupId = m.groupId ∧
      ∀ c, ((table.foldl BlockManager.releaseOneBlock m).blocks c).refCount =
        (m.blocks c).refCount - table.count c := by
  induction table generalizing m with
  | nil => exact ⟨hm, rfl, rfl, fun c => by simp⟩
  | cons b table ih =>
    obtain ⟨hparts, hnum, hgroup, hrc⟩ := hm.releaseOneBlock b
    obtain ⟨hparts', hnum', hgroup', hrc'⟩ := ih hparts
    refine ⟨hparts', hnum'.trans hnum, hgroup'.trans hgroup, fun c => ?_⟩
    rw [List.foldl_cons, hrc' c, hrc c, count_cons_eq b c table, Nat.sub_sub, Nat.add_comm]

end release

end BlockManager

/-! ## Runs -/

/-- A manager and the sequences that it is called with. -/
structure L3State where
  manager : BlockManager
  seqs : ℕ → Sequence

/-- The calls, and what others write to a sequence between them. -/
inductive L3Op
  | allocate (seqId : ℕ)
  | deallocate (seqId : ℕ)
  | setTokens (seqId : ℕ) (tokenIds : List ℤ) (numTokens : ℤ)
  | setL3Enabled (enabled : Bool)
  | setPrefixCachingEnabled (enabled : Bool)
  | setL3ResidentHashes (hashes : List ℤ)
  | markL3Resident (hashes : List ℤ)
  | drainPendingLoads
  | drainPendingOffloads

namespace L3State

/-- The table of a sequence in this manager. -/
def tables (s : L3State) (seqId : ℕ) : Option (List ℕ) := (s.seqs seqId).activeBlockTables (max s.manager.groupId 0)

/-- The occurrences of a block in the tables. -/
noncomputable def occurrences (s : L3State) (b : ℕ) : ℕ := familyCount s.tables b

def step [Xxh3] (s : L3State) : L3Op → L3State
  | .allocate seqId =>
    let r := s.manager.allocate (s.seqs seqId)
    ⟨r.2.1, Function.update s.seqs seqId r.2.2⟩
  | .deallocate seqId =>
    let r := s.manager.deallocate (s.seqs seqId)
    ⟨r.1, Function.update s.seqs seqId r.2⟩
  | .setTokens seqId tokenIds numTokens =>
    { s with seqs := Function.update s.seqs seqId { s.seqs seqId with tokenIds := tokenIds, numTokens := numTokens } }
  | .setL3Enabled enabled => { s with manager := s.manager.setL3Enabled enabled }
  | .setPrefixCachingEnabled enabled => { s with manager := s.manager.setPrefixCachingEnabled enabled }
  | .setL3ResidentHashes hashes => { s with manager := s.manager.setL3ResidentHashes hashes }
  | .markL3Resident hashes => { s with manager := s.manager.markL3Resident hashes }
  | .drainPendingLoads => { s with manager := s.manager.drainPendingLoads.2 }
  | .drainPendingOffloads => { s with manager := s.manager.drainPendingOffloads.2 }

end L3State

/-- A new manager, and sequences without tables. -/
def l3System [Xxh3] : System L3State L3Op where
  initial s := (∃ groupId numBlocks blockSize, s.manager = BlockManager.new groupId numBlocks blockSize) ∧
    ∀ i, s.tables i = none ∧ (s.seqs i).activeBlockTable = []
  next s op := some (s.step op)

namespace L3State

/-- The sequences hold what `allocate` gave them. -/
structure Tracked (s : L3State) : Prop where
  parts : s.manager.Parts
  active : ∀ i, (s.seqs i).activeBlockTable = (s.tables i).getD []
  finite : {i | s.tables i ≠ none}.Finite

/-- Every reference is an occurrence in a table. -/
def Counted (s : L3State) : Prop := ∀ b, (s.manager.blocks b).refCount = s.occurrences b

variable {s s' : L3State}

theorem table_of_not_holding (hs : s.Tracked) {i : ℕ} (h : s.manager.holdsTable (s.seqs i) = false) :
    (s.tables i).getD [] = [] := by
  rw [← hs.active i]
  unfold BlockManager.holdsTable at h
  simpa using (Bool.or_eq_false_iff.1 h).2

/-- The manager and the table of one sequence change. -/
theorem tables_update {i : ℕ} {seq : Sequence} {m : BlockManager} (hgroup : m.groupId = s.manager.groupId) :
    (⟨m, Function.update s.seqs i seq⟩ : L3State).tables =
      Function.update s.tables i (seq.activeBlockTables (max s.manager.groupId 0)) := by
  funext k
  show (Function.update s.seqs i seq k).activeBlockTables (max m.groupId 0) = _
  rw [hgroup]
  rcases eq_or_ne k i with rfl | hne
  · rw [Function.update_self, Function.update_self]
  · rw [Function.update_of_ne hne, Function.update_of_ne hne]
    rfl

theorem Tracked.update (hs : s.Tracked) {i : ℕ} {seq : Sequence} {m : BlockManager} (hm : m.Parts)
    (hgroup : m.groupId = s.manager.groupId)
    (hseq : seq.activeBlockTable = (seq.activeBlockTables (max s.manager.groupId 0)).getD []) :
    (⟨m, Function.update s.seqs i seq⟩ : L3State).Tracked := by
  refine ⟨hm, fun k => ?_, ?_⟩
  · rw [tables_update hgroup]
    show (Function.update s.seqs i seq k).activeBlockTable = _
    rcases eq_or_ne k i with rfl | hne
    · rw [Function.update_self, Function.update_self]
      exact hseq
    · rw [Function.update_of_ne hne, Function.update_of_ne hne]
      exact hs.active k
  · rw [tables_update hgroup]
    exact finite_update hs.finite i _

/-- What the other calls keep: the blocks, the free and used ones, and the tables. -/
theorem Tracked.congr (hs : s.Tracked) (s' : L3State) (hparts : s'.manager.Parts)
    (hgroup : s'.manager.groupId = s.manager.groupId)
    (hseqs : ∀ i, (s'.seqs i).activeBlockTable = (s.seqs i).activeBlockTable ∧
      (s'.seqs i).activeBlockTables = (s.seqs i).activeBlockTables) :
    s'.Tracked ∧ s'.tables = s.tables := by
  have htables : s'.tables = s.tables := by
    funext i
    unfold tables
    rw [(hseqs i).2, hgroup]
  exact ⟨⟨hparts, fun i => by rw [htables, (hseqs i).1, hs.active i], htables ▸ hs.finite⟩, htables⟩

/-- The blocks of a manager, their index and their lists. -/
structure SameBlocks (m m' : BlockManager) : Prop where
  groupId : m'.groupId = m.groupId
  blockSize : m'.blockSize = m.blockSize
  numBlocks : m'.numBlocks = m.numBlocks
  blocks : m'.blocks = m.blocks
  index : m'.hashToBlockId = m.hashToBlockId
  free : m'.freeBlockIds = m.freeBlockIds
  used : m'.usedBlockIds = m.usedBlockIds

/-- The calls that touch neither blocks nor sequences. -/
theorem setting_keeps (hs : s.Tracked) (m' : BlockManager) (hsame : SameBlocks s.manager m') :
    (⟨m', s.seqs⟩ : L3State).Tracked ∧ (s.Counted → (⟨m', s.seqs⟩ : L3State).Counted) := by
  have hp := hs.parts
  have hparts : m'.Parts := by
    refine ⟨hsame.blockSize ▸ hp.blockSize_pos, hsame.free ▸ hp.free_nodup, ?_, ?_, ?_, ?_,
      hsame.index ▸ hp.index_mark⟩
    · rw [hsame.numBlocks, hsame.free, hsame.used]
      exact hp.lt_iff
    · rw [hsame.free, hsame.used]
      exact hp.disjoint
    · rw [hsame.used, hsame.blocks]
      exact hp.refCount_pos
    · rw [hsame.used, hsame.blocks]
      exact hp.refCount_free
  obtain ⟨htracked, htables⟩ := hs.congr ⟨m', s.seqs⟩ hparts hsame.groupId fun i => ⟨rfl, rfl⟩
  refine ⟨htracked, fun hc b => ?_⟩
  unfold occurrences
  rw [htables]
  exact (congrArg (fun f => (f b).refCount) hsame.blocks).trans (hc b)

theorem partition_of_parts (hm : s.manager.Parts) (b : ℕ) :
    b < s.manager.numBlocks ↔ Xor (b ∈ s.manager.freeBlockIds) (b ∈ s.manager.usedBlockIds) := by
  have hdisjoint := hm.disjoint b
  rw [hm.lt_iff b, Xor]
  tauto

variable [Xxh3]

theorem allocate_tracked (hs : s.Tracked) (i : ℕ) : (s.step (.allocate i)).Tracked := by
  unfold step
  dsimp only
  rcases BlockManager.allocate_cases hs.parts (s.seqs i) with
    ⟨l, m', heq, -, htakes⟩ | ⟨e, m', table, heq, htakes⟩
  · rw [heq]
    refine hs.update htakes.parts htakes.groupId ?_
    simp [BlockManager.withTable, htakes.groupId]
  · rw [heq]
    exact hs.update htakes.parts htakes.groupId (hs.active i)

theorem deallocate_tracked (hs : s.Tracked) (i : ℕ) : (s.step (.deallocate i)).Tracked := by
  obtain ⟨hparts, -, hgroup, -⟩ := hs.parts.releaseAll
    (((s.seqs i).activeBlockTables (max s.manager.groupId 0)).getD (s.seqs i).activeBlockTable).reverse
  refine hs.update hparts hgroup ?_
  simp [BlockManager.deallocate]

theorem allocate_counted (hs : s.Tracked) (hc : s.Counted) {i : ℕ}
    (hlate : s.manager.runsOutLate (s.seqs i) = false) : (s.step (.allocate i)).Counted := by
  intro b
  unfold step
  dsimp only
  rcases BlockManager.allocate_cases hs.parts (s.seqs i) with
    ⟨l, m', heq, hhold, htakes⟩ | ⟨e, m', table, heq, htakes⟩
  · have hupdate := familyCount_update hs.finite i (some l.newTable) b
    rw [table_of_not_holding hs hhold, List.count_nil] at hupdate
    have htable : (m'.withTable (s.seqs i) l).activeBlockTables (max s.manager.groupId 0) = some l.newTable := by
      simp [BlockManager.withTable, htakes.groupId]
    rw [heq]
    unfold occurrences
    rw [tables_update htakes.groupId, htable]
    show (m'.blocks b).refCount = _
    rw [htakes.refCount b, hc b]
    exact hupdate.symm
  · have hsame := ((BlockManager.failed_sameCounts_iff hs.parts (congrArg Prod.fst heq)).2 hlate).1
    rw [heq] at hsame ⊢
    have hself : Function.update s.tables i (s.tables i) = s.tables := Function.update_eq_self i s.tables
    unfold occurrences
    rw [tables_update htakes.groupId]
    show (m'.blocks b).refCount = familyCount (Function.update s.tables i (s.tables i)) b
    rw [hself]
    exact (hsame.2.2 b).trans (hc b)

theorem deallocate_counted (hs : s.Tracked) (hc : s.Counted) (i : ℕ) : (s.step (.deallocate i)).Counted := by
  intro b
  have htable : ((s.seqs i).activeBlockTables (max s.manager.groupId 0)).getD (s.seqs i).activeBlockTable =
      (s.tables i).getD [] := by
    rw [hs.active i]
    unfold tables
    cases (s.seqs i).activeBlockTables (max s.manager.groupId 0) <;> rfl
  obtain ⟨-, -, hgroup, hrc⟩ := hs.parts.releaseAll ((s.tables i).getD []).reverse
  have hupdate := familyCount_update hs.finite i none b
  have hle : ((s.tables i).getD []).count b ≤ s.occurrences b := count_le_familyCount hs.finite i b
  have hnone : (s.manager.deallocate (s.seqs i)).2.activeBlockTables (max s.manager.groupId 0) = none := by
    simp [BlockManager.deallocate]
  have hmanager : (s.manager.deallocate (s.seqs i)).1 =
      ((s.tables i).getD []).reverse.foldl BlockManager.releaseOneBlock s.manager := by
    show (List.reverse _).foldl _ _ = _
    rw [htable]
  unfold step
  dsimp only
  unfold occurrences at hle ⊢
  rw [hmanager, tables_update hgroup, hnone, hrc b, hc b, List.count_reverse]
  unfold occurrences
  rw [Option.getD_none, List.count_nil] at hupdate
  omega

/-- A call keeps what is tracked, and the counts unless it is an `allocate` that returns late. -/
theorem step_keeps (hs : s.Tracked) (op : L3Op) :
    (s.step op).Tracked ∧
      ((∀ i, op = .allocate i → s.manager.runsOutLate (s.seqs i) = false) → s.Counted →
        (s.step op).Counted) := by
  cases op with
  | allocate i => exact ⟨allocate_tracked hs i, fun hlate hc => allocate_counted hs hc (hlate i rfl)⟩
  | deallocate i => exact ⟨deallocate_tracked hs i, fun _ hc => deallocate_counted hs hc i⟩
  -- the tokens are an input: only the tables are counted
  | setTokens i tokenIds numTokens =>
    obtain ⟨htracked, htables⟩ := hs.congr (s.step (.setTokens i tokenIds numTokens)) hs.parts rfl fun k => by
      show (Function.update s.seqs i _ k).activeBlockTable = _ ∧ (Function.update s.seqs i _ k).activeBlockTables = _
      rcases eq_or_ne k i with rfl | hne
      · rw [Function.update_self]
        exact ⟨rfl, rfl⟩
      · rw [Function.update_of_ne hne]
        exact ⟨rfl, rfl⟩
    refine ⟨htracked, fun _ hc b => ?_⟩
    unfold occurrences
    rw [htables]
    exact hc b
  | setL3Enabled enabled =>
    have hkeeps := setting_keeps hs (s.manager.setL3Enabled enabled) ⟨rfl, rfl, rfl, rfl, rfl, rfl, rfl⟩
    exact ⟨hkeeps.1, fun _ => hkeeps.2⟩
  | setPrefixCachingEnabled enabled =>
    have hkeeps := setting_keeps hs (s.manager.setPrefixCachingEnabled enabled) ⟨rfl, rfl, rfl, rfl, rfl, rfl, rfl⟩
    exact ⟨hkeeps.1, fun _ => hkeeps.2⟩
  | setL3ResidentHashes hashes =>
    have hkeeps := setting_keeps hs (s.manager.setL3ResidentHashes hashes) ⟨rfl, rfl, rfl, rfl, rfl, rfl, rfl⟩
    exact ⟨hkeeps.1, fun _ => hkeeps.2⟩
  | markL3Resident hashes =>
    have hkeeps := setting_keeps hs (s.manager.markL3Resident hashes) ⟨rfl, rfl, rfl, rfl, rfl, rfl, rfl⟩
    exact ⟨hkeeps.1, fun _ => hkeeps.2⟩
  | drainPendingLoads =>
    have hkeeps := setting_keeps hs s.manager.drainPendingLoads.2 ⟨rfl, rfl, rfl, rfl, rfl, rfl, rfl⟩
    exact ⟨hkeeps.1, fun _ => hkeeps.2⟩
  | drainPendingOffloads =>
    have hkeeps := setting_keeps hs s.manager.drainPendingOffloads.2 ⟨rfl, rfl, rfl, rfl, rfl, rfl, rfl⟩
    exact ⟨hkeeps.1, fun _ => hkeeps.2⟩

theorem initial_tracked (hs : l3System.initial s) : s.Tracked ∧ s.Counted := by
  obtain ⟨⟨groupId, numBlocks, blockSize, hm⟩, hseqs⟩ := hs
  have hnone : s.tables = fun _ => none := funext fun i => (hseqs i).1
  refine ⟨⟨?_, fun i => ?_, ?_⟩, fun b => ?_⟩
  · rw [hm]
    refine ⟨?_, List.nodup_range, fun b => ?_, fun b _ => Finset.notMem_empty b,
      fun b hb => ?_, fun b _ => rfl, rfl⟩
    · show 0 < (max blockSize 1).toNat
      omega
    · show b < (max numBlocks 0).toNat ↔ b ∈ List.range (max numBlocks 0).toNat ∨ b ∈ (∅ : Finset ℕ)
      rw [List.mem_range, or_iff_left (Finset.notMem_empty b)]
    · exact absurd hb (Finset.notMem_empty b)
  · rw [(hseqs i).2, (hseqs i).1]
    rfl
  · simp [hnone]
  · unfold occurrences
    rw [hnone, hm, familyCount_none]
    rfl

/-- No `allocate` returns late. -/
def l3Guard (s : L3State) : L3Op → Bool
  | .allocate i => !s.manager.runsOutLate (s.seqs i)
  | _ => true

/-- The accounting of the manager, where `G` says which calls are looked at. -/
structure Conserved (G : L3State → L3Op → Bool) (s : L3State) : Prop where
  free_nodup : s.manager.freeBlockIds.Nodup
  partition : ∀ b, b < s.manager.numBlocks ↔ Xor (b ∈ s.manager.freeBlockIds) (b ∈ s.manager.usedBlockIds)
  refCount : ∀ b, (s.manager.blocks b).refCount = s.occurrences b
  failed : ∀ i e, G s (.allocate i) = true → (s.manager.allocate (s.seqs i)).1 = .error e →
    s.manager.SameCounts (s.step (.allocate i)).manager ∧ (s.step (.allocate i)).seqs i = s.seqs i
  promise : ∀ i hits, s.manager.holdsTable (s.seqs i) = false → s.manager.canAllocate (s.seqs i) = some hits →
    (s.manager.allocate (s.seqs i)).1 = .ok ()

theorem tracked_invariant (G : L3State → L3Op → Bool) : Invariant l3System G Tracked where
  initial s hs := (initial_tracked hs).1
  next s op s' hs _ hnext := by
    cases hnext
    exact (step_keeps hs op).1

theorem counted_invariant : Invariant l3System l3Guard fun s => s.Tracked ∧ s.Counted where
  initial s hs := initial_tracked hs
  next s op s' hs hG hnext := by
    cases hnext
    refine ⟨(step_keeps hs.1 op).1, (step_keeps hs.1 op).2 (fun i hop => ?_) hs.2⟩
    subst hop
    simpa [l3Guard] using hG

theorem step_allocate_seqs (s : L3State) (i : ℕ) :
    (s.step (.allocate i)).seqs i = (s.manager.allocate (s.seqs i)).2.2 := Function.update_self _ _ _

end L3State

open L3State

/-- **Accounting of the manager**, along every run in which no `allocate` returns after its first block; and after any
run a failed `allocate` changes nothing exactly when it does not return so. -/
theorem l3_conserved [Xxh3] :
    (∀ s, Reachable l3System l3Guard s → s.Conserved l3Guard) ∧
      ∀ s, Reachable l3System always s → ∀ i e, (s.manager.allocate (s.seqs i)).1 = .error e →
        (s.manager.SameCounts (s.step (.allocate i)).manager ∧ (s.step (.allocate i)).seqs i = s.seqs i ↔
          l3Guard s (.allocate i) = true) := by
  have hfailed : ∀ s, s.Tracked → ∀ i e, (s.manager.allocate (s.seqs i)).1 = .error e →
      (s.manager.SameCounts (s.step (.allocate i)).manager ∧ (s.step (.allocate i)).seqs i = s.seqs i ↔
        l3Guard s (.allocate i) = true) := by
    intro s hs i e hfail
    rw [step_allocate_seqs]
    refine (BlockManager.failed_sameCounts_iff hs.parts hfail).trans ?_
    simp [l3Guard]
  refine ⟨fun s hreach => ?_, fun s hreach i e => hfailed s ((tracked_invariant always).holds hreach) i e⟩
  obtain ⟨hs, hc⟩ := counted_invariant.holds hreach
  exact ⟨hs.parts.free_nodup, partition_of_parts hs.parts, hc, fun i e hG hfail => (hfailed s hs i e hfail).2 hG,
    fun i hits hhold hcan => BlockManager.canAllocate_ok hs.parts hhold hcan⟩

section witness

attribute [local instance] codeHash

/-- One block of one token, and sequences of two tokens. -/
def oneBlock : L3State := ⟨BlockManager.new 0 1 1, fun i => Sequence.new i [5, 6] {}⟩

theorem initial_oneBlock : l3System.initial oneBlock := ⟨⟨0, 1, 1, rfl⟩, fun _ => ⟨rfl, rfl⟩⟩

/-- The second block of the sequence is missing, and the first one stays in use. -/
theorem not_conserved : ¬ ∀ s, Reachable l3System always s → s.Conserved always := by
  intro h
  have hfail : (oneBlock.manager.allocate (oneBlock.seqs 0)).1 = .error .noFreeBlocks := by decide +kernel
  have hsame := ((h oneBlock (.initial initial_oneBlock)).failed 0 .noFreeBlocks rfl hfail).1.2.1
  have hused : (oneBlock.step (.allocate 0)).manager.usedBlockIds ≠ oneBlock.manager.usedBlockIds := by decide +kernel
  exact hused hsame

/-- Two sequences share their blocks, and a third allocation fails at once. -/
def twoBlocks : L3State := ⟨BlockManager.new 0 2 1, fun i => Sequence.new i (if i = 2 then [7] else [5, 6]) {}⟩

theorem initial_twoBlocks : l3System.initial twoBlocks := ⟨⟨0, 2, 1, rfl⟩, fun _ => ⟨rfl, rfl⟩⟩

theorem l3_conserved_shared : ∃ s, Reachable l3System l3Guard s ∧ s.Conserved l3Guard ∧
    (s.manager.blocks 0).refCount = 2 := by
  obtain ⟨s, hreach, hcount⟩ := Reachable.exists_of_run (T := l3System) (G := l3Guard)
    (P := fun s => decide ((s.manager.blocks 0).refCount = 2)) [.allocate 0, .allocate 1, .allocate 2] initial_twoBlocks
    (by decide +kernel)
  exact ⟨s, hreach, l3_conserved.1 s hreach, of_decide_eq_true hcount⟩

end witness

end NanoEngine
