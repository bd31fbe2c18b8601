import NanoEngine.Cache.Eviction

/-!
# NanoEngine.Cache.WriteBack — when the write-back of an evicted prefix stops the reserve loop

* `HasRoom`: a host pool has a free block or an evictable one.  Storing a prefix keeps it so: the stored block is
  evictable itself.
* `Hosted`: the pools of all ranks are such that stores succeed exactly with room.
* `reserveLoop_room`: with room the loop fails for want of HBM blocks only.
* `reserveLoop_full`: without, it succeeds only if no block that it takes is `Ready`.
-/

namespace NanoEngine

namespace BlockPool

/-- A store finds a block. -/
def HasRoom (q : BlockPool) : Prop := q.freeBlocks ≠ [] ∨ ∃ b < q.numBlocks, (q.blocks b).state = .ready

variable {q q' : BlockPool} {h : ℤ} {tokens : List ℤ}

theorem HasRoom.of_lookup {b : ℕ} (hlookup : q.lookupReadyBlock h tokens = some b) : q.HasRoom := by
  obtain ⟨hlt, -, hready, -, -⟩ := lookupReadyBlock_some hlookup
  exact Or.inr ⟨b, hlt, hready⟩

theorem lookupReadyPrefixBlock_fst (q : BlockPool) (h : ℤ) (view : List ℤ) :
    (q.lookupReadyPrefixBlock h view).1 = q.lookupReadyBlock h view := by
  unfold lookupReadyPrefixBlock
  cases q.lookupReadyBlock h view <;> rfl

theorem lookupReadyPrefixBlock_miss {view : List ℤ} (hmiss : q.lookupReadyBlock h view = none) :
    (q.lookupReadyPrefixBlock h view).2 = q := by
  unfold lookupReadyPrefixBlock
  rw [hmiss]

theorem lookupReadyPrefixBlock_numBlocks (q : BlockPool) (h : ℤ) (view : List ℤ) :
    (q.lookupReadyPrefixBlock h view).2.numBlocks = q.numBlocks := by
  unfold lookupReadyPrefixBlock
  cases q.lookupReadyBlock h view
  · rfl
  · exact touchReadyHash_numBlocks q h

theorem HasRoom.lookup (hroom : q.HasRoom) (h : ℤ) (view : List ℤ) :
    (q.lookupReadyPrefixBlock h view).2.HasRoom := by
  unfold lookupReadyPrefixBlock
  cases q.lookupReadyBlock h view with
  | none => exact hroom
  | some b =>
    show (q.touchReadyHash h).HasRoom
    unfold HasRoom
    rw [touchReadyHash_freeBlocks, touchReadyHash_numBlocks, touchReadyHash_blocks]
    exact hroom

variable [Xxh3]

theorem Host.lru_of_not_hasRoom (hq : q.Host []) (hroom : ¬ q.HasRoom) : q.readyLru = [] := by
  refine List.eq_nil_iff_forall_not_mem.2 fun k hk => hroom (Or.inr ?_)
  obtain ⟨b, hb⟩ := Option.ne_none_iff_exists'.1 ((hq.lru_iff k).1 hk)
  exact ⟨b, hq.index_lt k b hb, (hq.index_ready k b hb).1⟩

/-- The oldest entry of the queue can be evicted. -/
theorem Host.evict_some (hq : q.Host []) {b : ℕ} (hb : b < q.numBlocks) (hready : (q.blocks b).state = .ready) :
    ∃ c q', q.evictReadyCacheBlock = (some c, q') ∧ c < q'.numBlocks := by
  unfold BlockPool.evictReadyCacheBlock
  cases hlru : q.readyLru with
  | nil =>
    have hmem := (hq.lru_iff (q.blocks b).hash).2 (by rw [hq.ready_index b hb hready]; simp)
    rw [hlru] at hmem
    cases hmem
  | cons k lru =>
    obtain ⟨c, hc⟩ := Option.ne_none_iff_exists'.1 ((hq.lru_iff k).1 (hlru ▸ List.mem_cons_self))
    have hlt := hq.index_lt k c hc
    have hcready := (hq.index_ready k c hc).1
    obtain ⟨hrc, -⟩ := (hq.ready_iff c hlt).1 hcready
    unfold evictLoop
    simp [hc, hlt, hrc, hcready, setBlock]

/-- A store succeeds exactly with room, keeps room and changes nothing when it fails. -/
theorem Host.store_cases (hash : HashInjective) (hq : q.Host []) (hhash : HashOf h tokens) :
    (q.HasRoom ∧ ∃ b q', q.storeReadyCacheBlock h tokens = (.ok b, q') ∧ q'.Host [] ∧ q'.HasRoom) ∨
      ¬ q.HasRoom ∧ q.storeReadyCacheBlock h tokens = (.error .outOfHostKvCacheBlocks, q) := by
  by_cases hroom : q.HasRoom
  · refine Or.inl ⟨hroom, ?_⟩
    have hok : ∃ b q', q.storeReadyCacheBlock h tokens = (.ok b, q') ∧ q'.HasRoom := by
      unfold BlockPool.storeReadyCacheBlock
      cases hlookup : q.lookupReadyBlock h tokens with
      | some b =>
        obtain ⟨hlt, -, hready, -, -⟩ := lookupReadyBlock_some hlookup
        exact ⟨b, _, rfl, Or.inr ⟨b, by simpa using hlt, by simpa using hready⟩⟩
      | none =>
        cases hfree : q.freeBlocks with
        | cons b free =>
          have hlt : b < q.numBlocks := hq.free_lt b (hfree ▸ List.mem_cons_self)
          refine ⟨b, _, rfl, Or.inr ⟨b, ?_, by simp [setBlock]⟩⟩
          simp only [touchReadyHash_numBlocks, setBlock]
          split <;> exact hlt
        | nil =>
          obtain ⟨b, hb, hready⟩ := hroom.resolve_left (not_not.2 hfree)
          obtain ⟨c, q', hevict, hlt⟩ := hq.evict_some hb hready
          rw [hevict]
          refine ⟨c, _, rfl, Or.inr ⟨c, ?_, by simp [setBlock]⟩⟩
          simp only [touchReadyHash_numBlocks, setBlock]
          split <;> exact hlt
    obtain ⟨b, q', hstore, hroom'⟩ := hok
    exact ⟨b, q', hstore, hq.storeReadyCacheBlock hash hhash hstore, hroom'⟩
  · refine Or.inr ⟨hroom, ?_⟩
    have hfree : q.freeBlocks = [] := by
      by_contra hne
      exact hroom (Or.inl hne)
    have hlookup : q.lookupReadyBlock h tokens = none := by
      by_contra hne
      obtain ⟨b, hb⟩ := Option.ne_none_iff_exists'.1 hne
      exact hroom (.of_lookup hb)
    have hlru := hq.lru_of_not_hasRoom hroom
    -- nothing is free and nothing can be evicted: the pool comes back as it was
    have hself : { q with readyLru := [] } = q := by rw [← hlru]
    unfold BlockPool.storeReadyCacheBlock
    rw [hlookup, hfree]
    dsimp only
    rw [BlockPool.evictReadyCacheBlock, hlru, evictLoop, hself]

/-! ### The hash of what is evicted -/

/-- Every `Ready` block carries the hash of its tokens after some prefix. -/
def ReadyHashed (p : BlockPool) : Prop :=
  ∀ b, (p.blocks b).state = .ready → HashOf (p.blocks b).hash (p.blocks b).tokenIds

variable {p p' : BlockPool} {b : ℕ}

theorem ReadyHashed.record (hp : p.ReadyHashed) (hothers : ∀ c, c ≠ b → p'.blocks c = p.blocks c)
    (hb : (p'.blocks b).state = .ready → HashOf (p'.blocks b).hash (p'.blocks b).tokenIds) : p'.ReadyHashed := by
  intro c hready
  by_cases hcb : c = b
  · subst hcb
    exact hb hready
  · rw [hothers c hcb] at hready ⊢
    exact hp c hready

theorem readyHashed_contents : Contents ReadyHashed where
  congr := by
    intro p p' hp _ hmeta _ b hready
    obtain ⟨hstate, hhash, htokens⟩ := hmeta b
    rw [hhash, htokens]
    exact hp b (hstate ▸ hready)
  allocate := by
    intro p p' b evicted hp halloc
    obtain ⟨hfresh, hpending, -⟩ := allocateFreshWithEviction_fresh halloc
    refine hp.record hfresh.blocks fun hready => ?_
    rw [hpending] at hready
    cases hready
  promote := by
    intro p p' b evicted h view hp hview _ halloc
    obtain ⟨hfresh, hmeta, -⟩ := allocatePromotedReady_fresh halloc
    exact hp.record hfresh.blocks fun _ => by rwa [hmeta]

theorem ReadyHashed.commitLoop (hp : p.ReadyHashed) (tokenIds : List ℤ) (table : List ℕ) (blockIdx : ℕ)
    (views : List (List ℤ)) : (BlockPool.commitLoop tokenIds table blockIdx (prefixHash views) p).ReadyHashed := by
  induction table generalizing p blockIdx views with
  | nil => exact hp
  | cons b table ih =>
    unfold BlockPool.commitLoop
    dsimp only
    rw [← prefixHash_append]
    split
    case isTrue => exact hp
    case isFalse =>
      split
      case h_1 => exact ih hp _ _
      case h_2 m hm =>
        split
        case isTrue =>
          refine ih ?_ _ _
          exact hp
        case isFalse =>
          refine ih (readyHashed_contents.touchReadyHash ?_ _) _ _
          refine hp.record (fun c hc => Function.update_of_ne hc _ _) fun _ => ?_
          exact ⟨views, by simp [setBlock]⟩

theorem ReadyHashed.commitReady (hp : p.ReadyHashed) (seqId : ℕ) (tokenIds : List ℤ) (committedTokens : ℤ) :
    (p.commitReady seqId tokenIds committedTokens).ReadyHashed := by
  unfold BlockPool.commitReady
  split
  case h_1 => exact hp
  case h_2 => exact hp.commitLoop tokenIds _ 0 []

theorem ReadyHashed.evicted (hp : p.ReadyHashed) {e : EvictedBlock} (he : p.evictedReadyMeta b = some e) :
    HashOf e.hash e.tokenIds := by
  obtain ⟨-, hready, hhash, htokens⟩ := evictedReadyMeta_some he
  rw [hhash, htokens]
  exact hp b hready

end BlockPool

namespace CacheState

open BlockPool

variable [Xxh3] {c c' : CacheState} {flat seqId : ℕ} {hostEnabled : Bool}

/-- The host pools are in order, and what an HBM pool evicts can be stored under its hash. -/
structure Hosted (c : CacheState) : Prop where
  host : ∀ f, (c.hostPools f).Host []
  hashed : ∀ f, (c.hbmPools f).ReadyHashed

theorem Hosted.setHbmPool (hc : c.Hosted) {p : BlockPool} (hp : p.ReadyHashed) : (c.setHbmPool flat p).Hosted where
  host := hc.host
  hashed := fun f => by
    by_cases hf : f = flat
    · subst hf
      rwa [setHbmPool_self]
    · show (Function.update c.hbmPools flat p f).ReadyHashed
      rw [Function.update_of_ne hf]
      exact hc.hashed f

theorem Hosted.setHostPool (hc : c.Hosted) {q : BlockPool} (hq : q.Host []) : (c.setHostPool flat q).Hosted where
  host := fun f => by
    by_cases hf : f = flat
    · subst hf
      rwa [setHostPool_self]
    · show (Function.update c.hostPools flat q f).Host []
      rw [Function.update_of_ne hf]
      exact hc.host f
  hashed := hc.hashed

omit [Xxh3] in
theorem setHostPool_same (c : CacheState) (flat : ℕ) : c.setHostPool flat (c.hostPools flat) = c := by
  rw [setHostPool, Function.update_eq_self]

omit [Xxh3] in
theorem setHbmPool_same (c : CacheState) (flat : ℕ) : c.setHbmPool flat (c.hbmPools flat) = c := by
  rw [setHbmPool, Function.update_eq_self]

/-- Nothing to write back, a block of the host pool for it, or no room and nothing changed. -/
theorem writeBack_cases (hash : HashInjective) (hc : c.Hosted) (flat : ℕ) (hostEnabled : Bool)
    {evicted : Option EvictedBlock} (hevicted : ∀ e ∈ evicted, HashOf e.hash e.tokenIds) :
    ((evicted = none ∨ hostEnabled = false) ∧ c.writeBackEvictedPrefix flat evicted hostEnabled = (.ok (), c)) ∨
      ((c.hostPools flat).HasRoom ∧ ∃ c', c.writeBackEvictedPrefix flat evicted hostEnabled =
        (.ok (), c') ∧ c'.Hosted ∧
        (c'.hostPools flat).HasRoom ∧ c'.hbmPools = c.hbmPools) ∨
      (evicted ≠ none ∧ hostEnabled = true ∧ ¬ (c.hostPools flat).HasRoom ∧
        c.writeBackEvictedPrefix flat evicted hostEnabled = (.error .outOfHostKvCacheBlocks, c)) := by
  cases evicted with
  | none => exact Or.inl ⟨Or.inl rfl, rfl⟩
  | some e =>
    cases hostEnabled with
    | false => exact Or.inl ⟨Or.inr rfl, rfl⟩
    | true =>
      right
      unfold writeBackEvictedPrefix
      dsimp only
      rw [if_pos rfl]
      rcases (hc.host flat).store_cases hash (hevicted e rfl) with
        ⟨hroom, b, q, hstore, hq, hroom'⟩ | ⟨hfull, hstore⟩
      · rw [hstore]
        refine Or.inl ⟨hroom, _, rfl, ⟨(hc.setHostPool hq).host, hc.hashed⟩, ?_, rfl⟩
        show ((c.setHostPool flat q).hostPools flat).HasRoom
        rwa [setHostPool_self]
      · rw [hstore]
        exact Or.inr ⟨by simp, rfl, hfull, Prod.ext rfl (setHostPool_same c flat)⟩

/-- What part of the reserve loop does: an error with room on the host is one of the HBM pool. -/
structure Reserves {α : Type} (flat : ℕ) (c : CacheState) (r : Except PyErr α) (c' : CacheState) : Prop where
  hosted : c'.Hosted
  room : (c.hostPools flat).HasRoom → (c'.hostPools flat).HasRoom
  error : ∀ e, r = .error e → (c.hostPools flat).HasRoom → e = .outOfKvCacheBlocks

theorem Reserves.of_room {α : Type} {c₁ : CacheState} {r : Except PyErr α} (h : Reserves flat c₁ r c')
    (hroom : (c.hostPools flat).HasRoom → (c₁.hostPools flat).HasRoom) : Reserves flat c r c' :=
  ⟨h.hosted, fun hr => h.room (hroom hr), fun e he hr => h.error e he (hroom hr)⟩

/-- A block is taken and what it held is written back. -/
theorem writeBack_reserves (hash : HashInjective) (hc : c.Hosted) (flat : ℕ) (hostEnabled : Bool)
    {evicted : Option EvictedBlock} (hevicted : ∀ e ∈ evicted, HashOf e.hash e.tokenIds) :
    (c.writeBackEvictedPrefix flat evicted hostEnabled).2.Hosted ∧
      ((c.hostPools flat).HasRoom → ((c.writeBackEvictedPrefix flat evicted hostEnabled).2.hostPools flat).HasRoom ∧
        (c.writeBackEvictedPrefix flat evicted hostEnabled).1 = .ok ()) := by
  rcases writeBack_cases hash hc flat hostEnabled hevicted with
    ⟨-, heq⟩ | ⟨-, c', heq, hc', hroom, -⟩ | ⟨-, -, hfull, heq⟩
  · rw [heq]
    exact ⟨hc, fun hroom => ⟨hroom, rfl⟩⟩
  · rw [heq]
    exact ⟨hc', fun _ => ⟨hroom, rfl⟩⟩
  · rw [heq]
    exact ⟨hc, fun hroom => absurd hroom hfull⟩

theorem reserveFresh_reserves (hash : HashInjective) (hc : c.Hosted) :
    Reserves flat c (c.reserveFresh flat hostEnabled).1 (c.reserveFresh flat hostEnabled).2 := by
  unfold reserveFresh
  split
  case h_1 e p h =>
    obtain rfl := allocateFreshWithEviction_error h
    rw [setHbmPool_same]
    refine ⟨hc, id, fun e' he' _ => ?_⟩
    unfold allocateFreshWithEviction at h
    split at h
    case h_1 =>
      cases h
      cases he'
      rfl
    case h_2 => cases h
  case h_2 b evicted p h =>
    obtain ⟨-, -, rfl⟩ := allocateFreshWithEviction_fresh h
    have hnext : (c.setHbmPool flat p).Hosted := hc.setHbmPool (readyHashed_contents.allocate (hc.hashed flat) h)
    obtain ⟨hhosted, hroom⟩ := writeBack_reserves hash hnext flat hostEnabled
      (fun e he => (hc.hashed flat).evicted he)
    split
    case h_1 e c' h' =>
      rw [h'] at hhosted hroom
      exact ⟨hhosted, fun hr => (hroom hr).1, fun _ _ hr => by cases (hroom hr).2⟩
    case h_2 c' h' =>
      rw [h'] at hhosted hroom
      exact ⟨hhosted, fun hr => (hroom hr).1, fun e he => by cases he⟩

theorem reservePromoted_reserves (hash : HashInjective) (hc : c.Hosted) {h : ℤ} {view : List ℤ} {hostBlock : ℕ}
    (hview : HashOf h view) (hmiss : (c.hbmPools flat).lookupReadyBlock h view = none) :
    Reserves flat c (c.reservePromoted flat seqId h view hostBlock hostEnabled).1
      (c.reservePromoted flat seqId h view hostBlock hostEnabled).2 := by
  unfold reservePromoted
  split
  case h_1 e p halloc =>
    unfold allocatePromotedReady at halloc
    split at halloc
    case h_2 => cases halloc
    case h_1 e' p' halloc' =>
      cases halloc
      obtain rfl := allocateFreshWithEviction_error halloc'
      rw [setHbmPool_same]
      refine ⟨hc, id, fun e' he' _ => ?_⟩
      unfold allocateFreshWithEviction at halloc'
      split at halloc'
      case h_1 =>
        cases halloc'
        cases he'
        rfl
      case h_2 => cases halloc'
  -- the pool has given a block; what follows can fail at the write-back only
  case h_2 b evicted p halloc =>
    obtain ⟨-, -, rfl⟩ := allocatePromotedReady_fresh halloc
    have hnext : (c.setHbmPool flat p).Hosted :=
      hc.setHbmPool (readyHashed_contents.promote (hc.hashed flat) hview hmiss halloc)
    obtain ⟨hhosted, hroom⟩ := writeBack_reserves hash hnext flat hostEnabled
      (fun e he => (hc.hashed flat).evicted he)
    split
    case h_1 e c' h' =>
      rw [h'] at hhosted hroom
      exact ⟨hhosted, fun hr => (hroom hr).1, fun _ _ hr => by cases (hroom hr).2⟩
    case h_2 c' h' =>
      rw [h'] at hhosted hroom
      exact ⟨⟨hhosted.host, hhosted.hashed⟩, fun hr => (hroom hr).1, fun e he => by cases he⟩

/-- A block of the index is in range, so retaining it cannot fail. -/
theorem reserveRetained_reserves (hc : c.Hosted) {b : ℕ} (hb : b < (c.hbmPools flat).numBlocks) :
    Reserves flat c (c.reserveRetained flat b).1 (c.reserveRetained flat b).2 := by
  have hnext := readyHashed_contents.retainBlock (hc.hashed flat) b
  unfold reserveRetained
  split
  case h_1 e p h =>
    unfold BlockPool.retainBlock at h
    rw [if_pos hb] at h
    cases h
  case h_2 p h =>
    rw [h] at hnext
    exact ⟨hc.setHbmPool hnext, id, fun e he => by cases he⟩

theorem reserveStep_reserves (hash : HashInjective) (hc : c.Hosted) {h : ℤ} {view : List ℤ} {lookup : Bool}
    (hview : lookup = true → HashOf h view) :
    Reserves flat c (c.reserveStep flat seqId h view lookup hostEnabled).1
      (c.reserveStep flat seqId h view lookup hostEnabled).2.2 := by
  unfold reserveStep
  split
  case isFalse => exact reserveFresh_reserves hash hc
  case isTrue hlookup =>
    dsimp only
    have hlooked : (c.setHbmPool flat ((c.hbmPools flat).lookupReadyPrefixBlock h view).2).Hosted :=
      hc.setHbmPool (readyHashed_contents.lookup (hc.hashed flat) h view)
    split
    case h_1 b hhit =>
      rw [lookupReadyPrefixBlock_fst] at hhit
      have hlt := (lookupReadyBlock_some hhit).1
      refine (reserveRetained_reserves hlooked ?_).of_room id
      rwa [setHbmPool_self, lookupReadyPrefixBlock_numBlocks]
    case h_2 hmiss =>
      rw [lookupReadyPrefixBlock_fst] at hmiss
      rw [lookupReadyPrefixBlock_miss hmiss, setHbmPool_same]
      have hhost : (c.setHostPool flat ((c.hostPools flat).lookupReadyPrefixBlock h view).2).Hosted :=
        hc.setHostPool ((hc.host flat).lookup h view)
      have hroom : (c.hostPools flat).HasRoom →
          ((c.setHostPool flat ((c.hostPools flat).lookupReadyPrefixBlock h view).2).hostPools flat).HasRoom := by
        intro hroom
        rw [setHostPool_self]
        exact HasRoom.lookup hroom h view
      split
      case h_1 hostBlock _ => exact (reservePromoted_reserves hash hhost (hview hlookup) hmiss).of_room hroom
      case h_2 => exact (reserveFresh_reserves hash hhost).of_room hroom

/-- **With room on the host** the loop keeps the host pools in order and fails for want of HBM blocks only. -/
theorem reserveLoop_reserves (hash : HashInjective) {tokenIds : List ℤ} {blockSize n blockIdx : ℕ}
    {h : ℤ} {cacheMiss : Bool}
    {views : List (List ℤ)} (hh : cacheMiss = false → h = prefixHash views) (hc : c.Hosted) :
    Reserves flat c (reserveLoop flat seqId tokenIds blockSize hostEnabled n blockIdx h cacheMiss c).1
      (reserveLoop flat seqId tokenIds blockSize hostEnabled n blockIdx h cacheMiss c).2 := by
  obtain ⟨hkept, herror⟩ := reserveLoop_rule
    (J := fun c' => c'.Hosted ∧ ((c.hostPools flat).HasRoom → (c'.hostPools flat).HasRoom))
    (E := fun e => (c.hostPools flat).HasRoom → e = .outOfKvCacheBlocks)
    (fun c₁ h view lookup hc₁ hview => by
      have hone : Reserves flat c₁ (c₁.reserveStep flat seqId h view lookup hostEnabled).1
          (c₁.reserveStep flat seqId h view lookup hostEnabled).2.2 := reserveStep_reserves hash hc₁.1 hview
      exact ⟨⟨hone.hosted, fun hr => hone.room (hc₁.2 hr)⟩, fun e he hr => hone.error e he (hc₁.2 hr)⟩)
    hh ⟨hc, id⟩
  exact ⟨hkept.1, hkept.2, herror⟩

/-! ### Without room on the host -/

/-- What the loop does when the host pool is full: blocks that are not `Ready` are no obstacle, one that is stops it. -/
structure StoppedBy {α : Type} (p : BlockPool) (popped : List ℕ) (r : Except PyErr α) : Prop where
  clean : (∀ b ∈ popped, p.evictedReadyMeta b = none) → ∀ e, r = .error e → e = .outOfKvCacheBlocks
  stopped : (∃ b ∈ popped, p.evictedReadyMeta b ≠ none) → ∀ out, r ≠ .ok out

omit [Xxh3] in
theorem StoppedBy.congr {α : Type} {p p' : BlockPool} {popped : List ℕ} {r : Except PyErr α}
    (hs : StoppedBy p' popped r)
    (h : ∀ b, p'.evictedReadyMeta b = p.evictedReadyMeta b) : StoppedBy p popped r := by
  refine ⟨fun hclean => hs.clean fun b hb => (h b).trans (hclean b hb), fun ⟨b, hb, hready⟩ =>
    hs.stopped ⟨b, hb, ?_⟩⟩
  rwa [h]

omit [Xxh3] in
/-- A block that is not `Ready` is taken first. -/
theorem StoppedBy.cons {α : Type} {p : BlockPool} {popped : List ℕ} {r : Except PyErr α} {b : ℕ}
    (hs : StoppedBy p popped r)
    (hb : p.evictedReadyMeta b = none) : StoppedBy p (b :: popped) r := by
  refine ⟨fun hclean => hs.clean fun d hd => hclean d (List.mem_cons_of_mem b hd), fun ⟨d, hd, hready⟩ => ?_⟩
  rcases List.mem_cons.1 hd with rfl | hd
  · exact absurd hb hready
  · exact hs.stopped ⟨d, hd, hready⟩

omit [Xxh3] in
theorem StoppedBy.of_result {α : Type} {p : BlockPool} {popped : List ℕ} {r r' : Except PyErr α}
    (hs : StoppedBy p popped r)
    (herror : ∀ e, r' = .error e → r = .error e) (hok : ∀ out, r' = .ok out → ∃ out', r = .ok out') :
    StoppedBy p popped r' := by
  refine ⟨fun hclean e he => hs.clean hclean e (herror e he), fun hready out hout => ?_⟩
  obtain ⟨out', hout'⟩ := hok out hout
  exact hs.stopped hready out' hout'

omit [Xxh3] in
theorem reserveFresh_empty (hfree : (c.hbmPools flat).freeBlocks = []) :
    (c.reserveFresh flat hostEnabled).1 = .error .outOfKvCacheBlocks := by
  unfold reserveFresh allocateFreshWithEviction
  rw [hfree]

/-- A block that is not `Ready` is taken and nothing is stored. -/
theorem reserveFresh_clean (hc : c.Hosted) {b : ℕ} {free : List ℕ}
    (hfree : (c.hbmPools flat).freeBlocks = b :: free)
    (hclean : (c.hbmPools flat).evictedReadyMeta b = none) :
    ∃ c', c.reserveFresh flat true = (.ok b, c') ∧ c'.Hosted ∧ c'.hostPools = c.hostPools ∧
      (c'.hbmPools flat).freeBlocks = free ∧
      ∀ d, (c'.hbmPools flat).evictedReadyMeta d = (c.hbmPools flat).evictedReadyMeta d := by
  cases halloc : (c.hbmPools flat).allocateFreshWithEviction with
  | mk r p =>
    cases r with
    | error e =>
      unfold allocateFreshWithEviction at halloc
      rw [hfree] at halloc
      cases halloc
    | ok x =>
      obtain ⟨b', evicted⟩ := x
      obtain ⟨hfresh, hpending, rfl⟩ := allocateFreshWithEviction_fresh halloc
      have hcons := hfresh.freeBlocks
      rw [hfree] at hcons
      obtain ⟨rfl, rfl⟩ := List.cons.inj hcons
      refine ⟨c.setHbmPool flat p, ?_, hc.setHbmPool (readyHashed_contents.allocate (hc.hashed flat) halloc),
        rfl, ?_, ?_⟩
      · unfold reserveFresh
        rw [halloc, hclean]
        rfl
      · rw [setHbmPool_self]
      · intro d
        rw [setHbmPool_self]
        by_cases hd : d = b
        · rw [hd, hclean, evictedReadyMeta, getBlock]
          split
          case h_1 => rfl
          case h_2 m hm =>
            split at hm
            case isFalse => cases hm
            case isTrue =>
              cases hm
              rw [if_pos (Or.inl (by rw [hpending]; simp))]
        · simp only [evictedReadyMeta, getBlock, hfresh.numBlocks, hfresh.blocks d hd]

/-- A `Ready` block cannot be written back. -/
theorem reserveFresh_stopped (hash : HashInjective) (hc : c.Hosted) (hfull : ¬ (c.hostPools flat).HasRoom) {b : ℕ}
    {free : List ℕ} (hfree : (c.hbmPools flat).freeBlocks = b :: free)
    (hready : (c.hbmPools flat).evictedReadyMeta b ≠ none) : ∃ e, (c.reserveFresh flat true).1 = .error e := by
  unfold reserveFresh
  split
  case h_1 e p halloc => exact ⟨e, rfl⟩
  case h_2 b' evicted p halloc =>
    obtain ⟨hfresh, -, rfl⟩ := allocateFreshWithEviction_fresh halloc
    have hcons := hfresh.freeBlocks
    rw [hfree] at hcons
    obtain ⟨rfl, -⟩ := List.cons.inj hcons
    have hnext : (c.setHbmPool flat p).Hosted := hc.setHbmPool (readyHashed_contents.allocate (hc.hashed flat) halloc)
    obtain ⟨e, c', heq⟩ : ∃ e c', (c.setHbmPool flat p).writeBackEvictedPrefix flat
        ((c.hbmPools flat).evictedReadyMeta b) true = (.error e, c') := by
      rcases writeBack_cases hash hnext flat true (fun e he => (hc.hashed flat).evicted he) with
        ⟨hnone | hfalse, -⟩ | ⟨hroom, -⟩ | ⟨-, -, -, heq⟩
      · exact absurd hnone hready
      · cases hfalse
      · exact absurd hroom hfull
      · exact ⟨_, _, heq⟩
    rw [heq]
    exact ⟨e, rfl⟩

/-- The running hash in the iteration for block `blockIdx`. -/
def nextHash (blockSize : ℕ) (tokenIds : List ℤ) (blockIdx : ℕ) (cacheMiss : Bool) (h : ℤ) : ℤ :=
  if decide ((blockView blockSize tokenIds blockIdx).length = blockSize) && !cacheMiss then
    computeBlockHash (blockView blockSize tokenIds blockIdx) h else h

section Next

variable {tokenIds : List ℤ} {blockSize n blockIdx b : ℕ} {h : ℤ} {cacheMiss miss : Bool}

/-- An iteration that fails ends the loop. -/
theorem reserveLoop_error {e : PyErr}
    (hstep : (c.reserveStep flat seqId (nextHash blockSize tokenIds blockIdx cacheMiss h)
      (blockView blockSize tokenIds blockIdx)
      (decide ((blockView blockSize tokenIds blockIdx).length = blockSize) && !cacheMiss) hostEnabled).1 = .error e) :
    (reserveLoop flat seqId tokenIds blockSize hostEnabled (n + 1) blockIdx h cacheMiss c).1 = .error e := by
  unfold nextHash at hstep
  rw [reserveLoop]
  split
  case h_1 e' miss c' heq =>
    rw [heq] at hstep
    cases hstep
    rfl
  case h_2 b miss c' heq =>
    rw [heq] at hstep
    cases hstep

/-- After an iteration that does not, the rest of the loop decides. -/
theorem StoppedBy.next {p : BlockPool} {popped : List ℕ}
    (hstep : c.reserveStep flat seqId (nextHash blockSize tokenIds blockIdx cacheMiss h)
      (blockView blockSize tokenIds blockIdx)
      (decide ((blockView blockSize tokenIds blockIdx).length = blockSize) && !cacheMiss) hostEnabled =
        (.ok b, miss, c'))
    (hs : StoppedBy p popped (reserveLoop flat seqId tokenIds blockSize hostEnabled n (blockIdx + 1)
      (nextHash blockSize tokenIds blockIdx cacheMiss h) miss c').1) :
    StoppedBy p popped (reserveLoop flat seqId tokenIds blockSize hostEnabled (n + 1) blockIdx h cacheMiss c).1 := by
  unfold nextHash at hstep hs
  rw [reserveLoop, hstep]
  dsimp only
  split
  case h_1 e c₂ h₂ =>
    rw [h₂] at hs
    exact hs.of_result (fun e' he => by cases he; rfl) fun out hout => by cases hout
  case h_2 blocks c₂ h₂ =>
    rw [h₂] at hs
    exact hs.of_result (fun e he => by cases he) fun out _ => ⟨blocks, rfl⟩

end Next

/-- An iteration without a hit, and the rest of the loop after the miss. -/
theorem StoppedBy.fresh (hash : HashInjective) {tokenIds : List ℤ} {blockSize n blockIdx : ℕ}
    {h : ℤ} {cacheMiss : Bool} (hc : c.Hosted) (hfull : ¬ (c.hostPools flat).HasRoom)
    (hstep : c.reserveStep flat seqId (nextHash blockSize tokenIds blockIdx cacheMiss h)
      (blockView blockSize tokenIds blockIdx)
      (decide ((blockView blockSize tokenIds blockIdx).length = blockSize) && !cacheMiss) true =
        ((c.reserveFresh flat true).1, true, (c.reserveFresh flat true).2))
    (hrest : ∀ c' h', c'.Hosted → ¬ (c'.hostPools flat).HasRoom →
      StoppedBy (c'.hbmPools flat) ((c'.hbmPools flat).freeBlocks.take n)
        (reserveLoop flat seqId tokenIds blockSize true n (blockIdx + 1) h' true c').1) :
    StoppedBy (c.hbmPools flat) ((c.hbmPools flat).freeBlocks.take (n + 1))
      (reserveLoop flat seqId tokenIds blockSize true (n + 1) blockIdx h cacheMiss c).1 := by
  cases hfree : (c.hbmPools flat).freeBlocks with
  | nil =>
    rw [reserveLoop_error (by rw [hstep]; exact reserveFresh_empty hfree)]
    exact ⟨fun _ e he => (by cases he; rfl), fun ⟨b, hb, _⟩ => absurd hb (by simp)⟩
  | cons b free =>
    cases hb : (c.hbmPools flat).evictedReadyMeta b with
    | some e =>
      obtain ⟨err, herr⟩ := reserveFresh_stopped hash hc hfull hfree (by rw [hb]; simp)
      rw [reserveLoop_error (by rw [hstep]; exact herr)]
      refine ⟨fun hclean => ?_, fun _ out hout => by cases hout⟩
      rw [hclean b (by simp)] at hb
      cases hb
    | none =>
      obtain ⟨c', hfresh, hc', hhost, hfree', hmeta⟩ := reserveFresh_clean hc hfree hb
      rw [hfresh] at hstep
      rw [List.take_succ_cons]
      have hnext := (hrest c' (nextHash blockSize tokenIds blockIdx cacheMiss h) hc' (hhost ▸ hfull)).congr hmeta
      rw [hfree'] at hnext
      exact (hnext.cons hb).next hstep

/-- After a miss the loop takes the first free blocks. -/
theorem reserveLoop_miss (hash : HashInjective) {tokenIds : List ℤ} {blockSize n blockIdx : ℕ}
    {h : ℤ} (hc : c.Hosted) (hfull : ¬ (c.hostPools flat).HasRoom) :
    StoppedBy (c.hbmPools flat) ((c.hbmPools flat).freeBlocks.take n)
      (reserveLoop flat seqId tokenIds blockSize true n blockIdx h true c).1 := by
  induction n generalizing c blockIdx h with
  | zero => exact ⟨fun _ e he => (by cases he), fun ⟨b, hb, _⟩ => absurd hb (by simp)⟩
  | succ n ih =>
    refine StoppedBy.fresh hash hc hfull ?_ fun c' h' hc' hfull' => ih hc' hfull'
    rw [Bool.not_true, Bool.and_false, reserveStep, if_neg Bool.false_ne_true]

end CacheState

namespace BlockPool

variable [Xxh3]

/-- The blocks of the leading full views that the index has, from block `blockIdx` on. -/
def readyPrefix (p : BlockPool) (blockSize : ℕ) (tokenIds : List ℤ) : ℕ → ℕ → ℤ → List ℕ
  | 0, _, _ => []
  | n + 1, blockIdx, h =>
    let view := blockView blockSize tokenIds blockIdx
    if view.length ≠ blockSize then []
    else
      let h := computeBlockHash view h
      match p.lookupReadyBlock h view with
      | none => []
      | some b => b :: readyPrefix p blockSize tokenIds n (blockIdx + 1) h

theorem readyPrefix_hit {p : BlockPool} {blockSize : ℕ} {tokenIds : List ℤ} {blockIdx b : ℕ} {h : ℤ} (n : ℕ)
    (hview : (blockView blockSize tokenIds blockIdx).length = blockSize)
    (hhit : p.lookupReadyBlock (computeBlockHash (blockView blockSize tokenIds blockIdx) h)
      (blockView blockSize tokenIds blockIdx) = some b) :
    p.readyPrefix blockSize tokenIds (n + 1) blockIdx h =
      b :: p.readyPrefix blockSize tokenIds n (blockIdx + 1)
        (computeBlockHash (blockView blockSize tokenIds blockIdx) h) := by
  rw [readyPrefix]
  dsimp only
  rw [if_neg (not_not.2 hview), hhit]

theorem readyPrefix_miss {p : BlockPool} {blockSize : ℕ} {tokenIds : List ℤ} {blockIdx : ℕ} {h : ℤ} (n : ℕ)
    (hmiss : (blockView blockSize tokenIds blockIdx).length = blockSize →
      p.lookupReadyBlock (computeBlockHash (blockView blockSize tokenIds blockIdx) h)
        (blockView blockSize tokenIds blockIdx) = none) :
    p.readyPrefix blockSize tokenIds (n + 1) blockIdx h = [] := by
  rw [readyPrefix]
  dsimp only
  split
  case isTrue => rfl
  case isFalse hview => rw [hmiss (not_not.1 hview)]

theorem readyPrefix_congr {p p' : BlockPool}
    (hlookup : ∀ h tokens, p'.lookupReadyBlock h tokens = p.lookupReadyBlock h tokens)
    (blockSize : ℕ) (tokenIds : List ℤ) (n blockIdx : ℕ) (h : ℤ) :
    p'.readyPrefix blockSize tokenIds n blockIdx h = p.readyPrefix blockSize tokenIds n blockIdx h := by
  induction n generalizing blockIdx h with
  | zero => rfl
  | succ n ih =>
    unfold readyPrefix
    dsimp only
    rw [hlookup]
    split
    · rfl
    · split
      · rfl
      · rw [ih]

section Same

omit [Xxh3]

variable {p p' : BlockPool} (hn : p'.numBlocks = p.numBlocks)
  (hmeta : ∀ b, (p'.blocks b).state = (p.blocks b).state ∧ (p'.blocks b).hash = (p.blocks b).hash ∧
    (p'.blocks b).tokenIds = (p.blocks b).tokenIds)

include hn hmeta

theorem lookupReadyBlock_congr (hindex : p'.hashToBlockId = p.hashToBlockId) (h : ℤ) (tokens : List ℤ) :
    p'.lookupReadyBlock h tokens = p.lookupReadyBlock h tokens := by
  simp only [lookupReadyBlock, hindex, getBlock, hn]
  cases p.hashToBlockId h with
  | none => rfl
  | some b =>
    dsimp only
    obtain ⟨hstate, hhash, htokens⟩ := hmeta b
    have hmatch : (p'.blocks b).readyMatches tokens h = (p.blocks b).readyMatches tokens h := by
      simp only [BlockMeta.readyMatches, hstate, hhash, htokens]
    split_ifs with hb
    · dsimp only
      rw [hmatch]
    · rfl

theorem evictedReadyMeta_congr (b : ℕ) : p'.evictedReadyMeta b = p.evictedReadyMeta b := by
  obtain ⟨hstate, hhash, htokens⟩ := hmeta b
  simp only [evictedReadyMeta, getBlock, hn]
  split_ifs with hb
  · simp only [hstate, hhash, htokens]
  · rfl

end Same

omit [Xxh3] in
/-- A retained block keeps its contents: only the count and the free list change. -/
theorem retainBlock_same {p : BlockPool} {b : ℕ} (hb : b < p.numBlocks) (hash : ℤ) :
    ∃ q, (p.touchReadyHash hash).retainBlock b = (.ok (), q) ∧
      q.freeBlocks = p.freeBlocks.filter (fun id => decide (id ≠ b)) ∧
      (∀ h tokens, q.lookupReadyBlock h tokens = p.lookupReadyBlock h tokens) ∧
      ∀ d, q.evictedReadyMeta d = p.evictedReadyMeta d := by
  have hretain : (p.touchReadyHash hash).retainBlock b = (.ok (), { p.touchReadyHash hash with
      blocks := Function.update p.blocks b { p.blocks b with refCount := (p.blocks b).refCount + 1 }
      freeBlocks := p.freeBlocks.filter (fun id => decide (id ≠ b)) }) := by
    unfold BlockPool.retainBlock
    rw [touchReadyHash_numBlocks, if_pos hb, touchReadyHash_freeBlocks, touchReadyHash_blocks]
    simp only [setBlock, touchReadyHash_blocks]
  have hmeta : ∀ d, (Function.update p.blocks b { p.blocks b with refCount := (p.blocks b).refCount + 1 } d).state =
      (p.blocks d).state ∧
      (Function.update p.blocks b { p.blocks b with refCount := (p.blocks b).refCount + 1 } d).hash =
        (p.blocks d).hash ∧
      (Function.update p.blocks b { p.blocks b with refCount := (p.blocks b).refCount + 1 } d).tokenIds =
        (p.blocks d).tokenIds := by
    intro d
    by_cases hd : d = b
    · subst hd
      simp
    · rw [Function.update_of_ne hd]
      exact ⟨rfl, rfl, rfl⟩
  exact ⟨_, hretain, rfl, lookupReadyBlock_congr (touchReadyHash_numBlocks p hash) hmeta
    (touchReadyHash_hashToBlockId p hash),
    evictedReadyMeta_congr (touchReadyHash_numBlocks p hash) hmeta⟩

end BlockPool

namespace CacheState

open BlockPool

variable [Xxh3] {c : CacheState} {flat seqId : ℕ}

/-- A hit in HBM: the block is retained and nothing is asked of the host. -/
theorem reserveStep_hit (hc : c.Hosted) (seqId : ℕ) {h : ℤ} {view : List ℤ} {b : ℕ} (hostEnabled : Bool)
    (hhit : (c.hbmPools flat).lookupReadyBlock h view = some b) :
    ∃ q, c.reserveStep flat seqId h view true hostEnabled = (.ok b, false, c.setHbmPool flat q) ∧
      (c.setHbmPool flat q).Hosted ∧
      q.freeBlocks = (c.hbmPools flat).freeBlocks.filter (fun id => decide (id ≠ b)) ∧
      (∀ h tokens, q.lookupReadyBlock h tokens = (c.hbmPools flat).lookupReadyBlock h tokens) ∧
      ∀ d, q.evictedReadyMeta d = (c.hbmPools flat).evictedReadyMeta d := by
  obtain ⟨q, hretain, hfree, hlook, hmeta⟩ := retainBlock_same (lookupReadyBlock_some hhit).1 h
  have hq : q.ReadyHashed := by
    have hkept := readyHashed_contents.retainBlock (readyHashed_contents.touchReadyHash (hc.hashed flat) h) b
    rwa [hretain] at hkept
  refine ⟨q, ?_, hc.setHbmPool hq, hfree, hlook, hmeta⟩
  simp only [reserveStep, if_pos, lookupReadyPrefixBlock, hhit, reserveRetained, setHbmPool_self, hretain]
  simp [setHbmPool]

omit [Xxh3] in
/-- The free blocks beside a retained one and the others. -/
theorem filter_beside (free rest : List ℕ) (b : ℕ) :
    (free.filter (fun d => decide (d ≠ b))).filter (fun d => decide (d ∉ rest)) =
      free.filter (fun d => decide (d ∉ b :: rest)) := by
  rw [List.filter_filter]
  refine List.filter_congr fun d _ => ?_
  by_cases hd : d = b <;> simp [hd]

/-- **Without room on the host** the loop succeeds only if no block that it takes from the free list is `Ready`. -/
theorem reserveLoop_full (hash : HashInjective) {tokenIds : List ℤ} {blockSize n blockIdx : ℕ}
    {h : ℤ} (hc : c.Hosted) (hfull : ¬ (c.hostPools flat).HasRoom) :
    StoppedBy (c.hbmPools flat)
      (((c.hbmPools flat).freeBlocks.filter (fun b =>
        decide (b ∉ (c.hbmPools flat).readyPrefix blockSize tokenIds n blockIdx h))).take
          (n - ((c.hbmPools flat).readyPrefix blockSize tokenIds n blockIdx h).length))
      (reserveLoop flat seqId tokenIds blockSize true n blockIdx h false c).1 := by
  induction n generalizing c blockIdx h with
  | zero => exact ⟨fun _ e he => (by cases he), fun ⟨b, hb, _⟩ => absurd hb (by simp)⟩
  | succ n ih =>
    -- what follows a miss
    have hfresh : (c.reserveStep flat seqId (nextHash blockSize tokenIds blockIdx false h)
      (blockView blockSize tokenIds blockIdx)
        (decide ((blockView blockSize tokenIds blockIdx).length = blockSize) && !false) true =
          ((c.reserveFresh flat true).1, true, (c.reserveFresh flat true).2)) →
        StoppedBy (c.hbmPools flat) ((c.hbmPools flat).freeBlocks.take (n + 1))
          (reserveLoop flat seqId tokenIds blockSize true (n + 1) blockIdx h false c).1 := fun hstep =>
      StoppedBy.fresh hash hc hfull hstep fun c' h' hc' hfull' => reserveLoop_miss hash hc' hfull'
    by_cases hview : (blockView blockSize tokenIds blockIdx).length = blockSize
    · have hlookup : (decide ((blockView blockSize tokenIds blockIdx).length = blockSize) && !false) = true := by
        rw [decide_eq_true hview]
        rfl
      have hnext : nextHash blockSize tokenIds blockIdx false h =
        computeBlockHash (blockView blockSize tokenIds blockIdx) h := by
        rw [nextHash, if_pos hlookup]
      rw [hnext, hlookup] at hfresh
      cases hhit : (c.hbmPools flat).lookupReadyBlock (computeBlockHash (blockView blockSize tokenIds blockIdx) h)
          (blockView blockSize tokenIds blockIdx) with
      | none =>
        have hhost : (c.hostPools flat).lookupReadyBlock (computeBlockHash (blockView blockSize tokenIds blockIdx) h)
            (blockView blockSize tokenIds blockIdx) = none := by
          by_contra hne
          obtain ⟨b, hb⟩ := Option.ne_none_iff_exists'.1 hne
          exact hfull (.of_lookup hb)
        rw [readyPrefix_miss n fun _ => hhit]
        simp only [List.not_mem_nil, not_false_eq_true, decide_true, List.filter_true, List.length_nil, Nat.sub_zero]
        refine hfresh ?_
        simp only [reserveStep, if_pos, lookupReadyPrefixBlock, hhit, setHbmPool_same, hhost, setHostPool_same]
      | some b =>
        obtain ⟨q, hstep, hq, hfree, hlook, hmeta⟩ := reserveStep_hit hc seqId true hhit
        have hrest := @ih (c.setHbmPool flat q) (blockIdx + 1)
          (computeBlockHash (blockView blockSize tokenIds blockIdx) h) hq
          hfull
        rw [setHbmPool_self, readyPrefix_congr hlook, hfree, filter_beside] at hrest
        have hfirst : c.reserveStep flat seqId (nextHash blockSize tokenIds blockIdx false h)
            (blockView blockSize tokenIds blockIdx)
            (decide ((blockView blockSize tokenIds blockIdx).length = blockSize) && !false) true =
              (.ok b, false, c.setHbmPool flat q) := by
          rw [hnext, hlookup]
          exact hstep
        rw [readyPrefix_hit n hview hhit, List.length_cons, Nat.add_sub_add_right]
        rw [← hnext] at hrest ⊢
        exact (hrest.congr hmeta).next hfirst
    · rw [readyPrefix_miss n fun hfullView => absurd hfullView hview]
      simp only [List.not_mem_nil, not_false_eq_true, decide_true, List.filter_true, List.length_nil, Nat.sub_zero]
      refine hfresh ?_
      rw [decide_eq_false hview, Bool.false_and, reserveStep, if_neg Bool.false_ne_true]

end CacheState

end NanoEngine
