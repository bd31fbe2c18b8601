import NanoEngine.Cache.State

/-!
# NanoEngine.Worker.HostSwap — blocks of the worker's caches copied to the host and back

`swap_out_blocks_to_host`, `swap_in_blocks_from_host` and the `_copy_kv_block_*` functions of
`runtime/runner/model_runner.py`, over the buffers of `runtime/context/cache`.  A tensor is a function of its index; the
block id is index `1` of the `dsv4` cache and of the indexer cache and index `2` of the other caches.

* `Tensor.block`: what a tensor holds for one block.
* `CacheContext.SameBlock`: all that the model reads for a block, the indexer pages included.
* `sameBlock_roundTrip_iff`: when a block that went to the host and came back is the block it was.
-/

namespace NanoEngine

/-- `mode` of the cache context. -/
inductive CacheMode where
  | gqa
  | mla
  | dsv4
  deriving DecidableEq

/-- A tensor, by the list of its indices. -/
def Tensor (β : Type*) := List ℕ → β

namespace Tensor

variable {β : Type*}

/-- The entries with index `b` on `axis`, at the indices `idx` of the rest. -/
def block (axis : ℕ) (t : Tensor β) (b : ℕ) (idx : List ℕ) : β := t (idx.set axis b)

/-- `dst[.., d].copy_(src[.., s])`, with the block ids on `axis`. -/
def copySlice (axis : ℕ) (dst : Tensor β) (d : ℕ) (src : Tensor β) (s : ℕ) : Tensor β :=
  fun idx => if idx[axis]? = some d then src.block axis s idx else dst idx

/-- Two blocks with the same entries. -/
def SameAt (axis : ℕ) (t : Tensor β) (b : ℕ) (t' : Tensor β) (b' : ℕ) : Prop :=
  ∀ idx : List ℕ, axis < idx.length → t.block axis b idx = t'.block axis b' idx

variable {axis : ℕ}

theorem SameAt.trans {t₁ t₂ t₃ : Tensor β} {b₁ b₂ b₃ : ℕ} (h : SameAt axis t₁ b₁ t₂ b₂)
    (h' : SameAt axis t₂ b₂ t₃ b₃) :
    SameAt axis t₁ b₁ t₃ b₃ := fun idx hidx => (h idx hidx).trans (h' idx hidx)

theorem SameAt.symm {t t' : Tensor β} {b b' : ℕ} (h : SameAt axis t b t' b') : SameAt axis t' b' t b :=
  fun idx hidx => (h idx hidx).symm

theorem sameAt_copySlice (dst src : Tensor β) (d s : ℕ) : SameAt axis (dst.copySlice axis d src s) d src s := by
  intro idx hidx
  simp [block, copySlice, hidx]

theorem sameAt_copySlice_of_ne (dst src : Tensor β) {b d : ℕ} (s : ℕ) (hbd : b ≠ d) :
    SameAt axis (dst.copySlice axis d src s) b dst b := by
  intro idx hidx
  simp [block, copySlice, hidx, hbd]

/-- Copies of `(source, destination)` pairs one after another. -/
def copySlices (axis : ℕ) (src : Tensor β) (pairs : List (ℕ × ℕ)) (dst : Tensor β) : Tensor β :=
  pairs.foldl (fun dst p => dst.copySlice axis p.2 src p.1) dst

theorem sameAt_copySlices_of_notMem {src : Tensor β} {pairs : List (ℕ × ℕ)} {b : ℕ}
    (hb : b ∉ pairs.map Prod.snd)
    (dst : Tensor β) : SameAt axis (copySlices axis src pairs dst) b dst b := by
  induction pairs generalizing dst with
  | nil => exact fun _ _ => rfl
  | cons p pairs ih =>
    rw [List.map_cons, List.mem_cons, not_or] at hb
    exact (ih hb.2 _).trans (sameAt_copySlice_of_ne dst src p.1 hb.1)

/-- The last copy into a block decides. -/
theorem sameAt_copySlices {src : Tensor β} {pre post : List (ℕ × ℕ)} {s d : ℕ} (hd : d ∉ post.map Prod.snd)
    (dst : Tensor β) : SameAt axis (copySlices axis src (pre ++ (s, d) :: post) dst) d src s := by
  unfold copySlices
  rw [List.foldl_append, List.foldl_cons]
  exact (sameAt_copySlices_of_notMem hd _).trans (sameAt_copySlice _ src d s)

end Tensor

/-- The buffers of a worker; the indexer cache is allocated when the model has `index_head_dim`. -/
structure CacheContext (β : Type*) where
  mode : CacheMode
  kvCache : Tensor β
  hostKvCache : Option (Tensor β)
  indexerCache : Option (Tensor β)

/-- The copies of a list of tasks, in order. -/
def swapPairs (tasks : List SwapTask) : List (ℕ × ℕ) := tasks.flatMap fun task => task.fromBlocks.zip task.toBlocks

namespace CacheContext

variable {β : Type*}

/-- The axis of the block ids: `[:, block]` for `dsv4`, `[:, :, block]` for the other modes. -/
def blockAxis : CacheMode → ℕ
  | .dsv4 => 1
  | .mla => 2
  | .gqa => 2

/-- The axis of the block ids in the indexer cache. -/
def indexerAxis : ℕ := 1

/-- `_copy_kv_block_to_host` for every pair; `none` when the tables of a task have different sizes or no host cache is
allocated. -/
def swapOutBlocksToHost (c : CacheContext β) (tasks : List SwapTask) : Option (CacheContext β) :=
  match c.hostKvCache with
  | none => if tasks.isEmpty then some c else none
  | some host =>
    if tasks.all fun task => task.fromBlocks.length == task.toBlocks.length then
      some { c with hostKvCache := some (Tensor.copySlices (blockAxis c.mode) c.kvCache (swapPairs tasks) host) }
    else none

/-- `_copy_kv_block_from_host` for every pair. -/
def swapInBlocksFromHost (c : CacheContext β) (tasks : List SwapTask) : Option (CacheContext β) :=
  match c.hostKvCache with
  | none => if tasks.isEmpty then some c else none
  | some host =>
    if tasks.all fun task => task.fromBlocks.length == task.toBlocks.length then
      some { c with kvCache := Tensor.copySlices (blockAxis c.mode) host (swapPairs tasks) c.kvCache }
    else none

/-- All that the model reads for block `b` of `c` is what it reads for block `b'` of `c'`. -/
structure SameBlock (c : CacheContext β) (b : ℕ) (c' : CacheContext β) (b' : ℕ) : Prop where
  kv : Tensor.SameAt (blockAxis c.mode) c.kvCache b c'.kvCache b'
  indexer : ∀ t t', c.indexerCache = some t → c'.indexerCache = some t' → Tensor.SameAt indexerAxis t b t' b'

end CacheContext

/-- What a worker does between two swaps: calls of the model, which write any GPU blocks, and other swaps. -/
inductive WorkerOp (β : Type*) where
  | forward (kvCache indexerCache : Tensor β)
  | swapOut (tasks : List SwapTask)
  | swapIn (tasks : List SwapTask)

namespace CacheContext

variable {β : Type*}

def runOp (c : CacheContext β) : WorkerOp β → Option (CacheContext β)
  | .forward kvCache indexerCache =>
    some { c with kvCache := kvCache, indexerCache := c.indexerCache.map fun _ => indexerCache }
  | .swapOut tasks => c.swapOutBlocksToHost tasks
  | .swapIn tasks => c.swapInBlocksFromHost tasks

def runOps (c : CacheContext β) : List (WorkerOp β) → Option (CacheContext β)
  | [] => some c
  | op :: ops => (c.runOp op).bind fun c' => c'.runOps ops

end CacheContext

/-- The operation does not write host block `h`. -/
def WorkerOp.SparesHost {β : Type*} (h : ℕ) : WorkerOp β → Prop
  | .swapOut tasks => h ∉ (swapPairs tasks).map Prod.snd
  | _ => True

namespace CacheContext

variable {β : Type*} {c c' : CacheContext β}

theorem swapOut_eq {tasks : List SwapTask} (h : c.swapOutBlocksToHost tasks = some c') :
    c'.mode = c.mode ∧ c'.kvCache = c.kvCache ∧ c'.indexerCache = c.indexerCache ∧
      c'.hostKvCache = c.hostKvCache.map fun host =>
        Tensor.copySlices (blockAxis c.mode) c.kvCache (swapPairs tasks) host := by
  unfold swapOutBlocksToHost at h
  cases hhost : c.hostKvCache with
  | none =>
    simp only [hhost] at h
    split_ifs at h
    cases h
    exact ⟨rfl, rfl, rfl, by rw [hhost]; rfl⟩
  | some host =>
    simp only [hhost] at h
    split_ifs at h
    cases h
    exact ⟨rfl, rfl, rfl, rfl⟩

theorem swapIn_eq {tasks : List SwapTask} (h : c.swapInBlocksFromHost tasks = some c') :
    c'.mode = c.mode ∧ c'.hostKvCache = c.hostKvCache ∧ c'.indexerCache = c.indexerCache ∧
      ∀ host, c.hostKvCache = some host →
        c'.kvCache = Tensor.copySlices (blockAxis c.mode) host (swapPairs tasks) c.kvCache := by
  unfold swapInBlocksFromHost at h
  cases hhost : c.hostKvCache with
  | none =>
    simp only [hhost] at h
    split_ifs at h
    cases h
    exact ⟨rfl, hhost, rfl, fun host heq => by cases heq⟩
  | some host =>
    simp only [hhost] at h
    split_ifs at h
    cases h
    exact ⟨rfl, rfl, rfl, fun host' heq => by cases heq; rfl⟩

/-- An operation that spares host block `h` leaves its content. -/
theorem runOp_host {op : WorkerOp β} {h : ℕ} (hop : op.SparesHost h) (hrun : c.runOp op = some c') :
    c'.mode = c.mode ∧ ∀ host, c.hostKvCache = some host →
      ∃ host', c'.hostKvCache = some host' ∧ Tensor.SameAt (blockAxis c.mode) host' h host h := by
  cases op with
  | forward kvCache indexerCache =>
    cases hrun
    exact ⟨rfl, fun host hhost => ⟨host, hhost, fun _ _ => rfl⟩⟩
  | swapOut tasks =>
    obtain ⟨hmode, -, -, hhost'⟩ := swapOut_eq hrun
    refine ⟨hmode, fun host hhost => ?_⟩
    rw [hhost, Option.map_some] at hhost'
    exact ⟨_, hhost', Tensor.sameAt_copySlices_of_notMem hop host⟩
  | swapIn tasks =>
    obtain ⟨hmode, hhost', -, -⟩ := swapIn_eq hrun
    exact ⟨hmode, fun host hhost => ⟨host, hhost'.trans hhost, fun _ _ => rfl⟩⟩

theorem runOps_host {ops : List (WorkerOp β)} {h : ℕ} (hops : ∀ op ∈ ops, op.SparesHost h)
    (hrun : c.runOps ops = some c') : c'.mode = c.mode ∧ ∀ host, c.hostKvCache = some host →
      ∃ host', c'.hostKvCache = some host' ∧ Tensor.SameAt (blockAxis c.mode) host' h host h := by
  induction ops generalizing c with
  | nil =>
    cases hrun
    exact ⟨rfl, fun host hhost => ⟨host, hhost, fun _ _ => rfl⟩⟩
  | cons op ops ih =>
    obtain ⟨c₁, hop, hrest⟩ := Option.bind_eq_some_iff.1 hrun
    obtain ⟨hmode, hhost⟩ := runOp_host (hops op List.mem_cons_self) hop
    obtain ⟨hmode', hhost'⟩ := ih (fun o ho => hops o (List.mem_cons_of_mem _ ho)) hrest
    refine ⟨hmode'.trans hmode, fun host heq => ?_⟩
    obtain ⟨host₁, heq₁, hsame₁⟩ := hhost host heq
    obtain ⟨host₂, heq₂, hsame₂⟩ := hhost' host₁ heq₁
    rw [hmode] at hsame₂
    exact ⟨host₂, heq₂, hsame₂.trans hsame₁⟩

/-- A copy needs the host cache. -/
theorem hostKvCache_of_swapOut {tasks : List SwapTask} (h : c.swapOutBlocksToHost tasks = some c') {p : ℕ × ℕ}
    (hp : p ∈ swapPairs tasks) : ∃ host, c.hostKvCache = some host := by
  cases hhost : c.hostKvCache with
  | some host => exact ⟨host, rfl⟩
  | none =>
    simp only [swapOutBlocksToHost, hhost] at h
    split_ifs at h with hempty
    rw [List.isEmpty_iff.1 hempty] at hp
    cases hp

/-- **Host round trip**: block `b` goes to host block `h`, which nothing overwrites until it comes back as block `b'`.
The KV layers of `b'` are then those of `b` in every mode; the indexer pages are never copied, so the block is the
same exactly if the pages of `b'` were those of `b` before. -/
theorem sameBlock_roundTrip_iff {c₀ c₁ c₂ c₃ : CacheContext β} {outTasks inTasks : List SwapTask}
    {ops : List (WorkerOp β)}
    {b h b' : ℕ} {pre post pre' post' : List (ℕ × ℕ)} (hout : c₀.swapOutBlocksToHost outTasks = some c₁)
    (houtPairs : swapPairs outTasks = pre ++ (b, h) :: post) (hpost : h ∉ post.map Prod.snd)
    (hrun : c₁.runOps ops = some c₂) (hops : ∀ op ∈ ops, op.SparesHost h)
    (hin : c₂.swapInBlocksFromHost inTasks = some c₃) (hinPairs : swapPairs inTasks = pre' ++ (h, b') :: post')
    (hpost' : b' ∉ post'.map Prod.snd) :
    c₃.SameBlock b' c₀ b ↔ ∀ t t', c₂.indexerCache = some t → c₀.indexerCache = some t' →
      Tensor.SameAt indexerAxis t b' t' b := by
  obtain ⟨host, hhost⟩ := hostKvCache_of_swapOut hout (houtPairs ▸ List.mem_append_right _ List.mem_cons_self)
  obtain ⟨hmode₁, -, -, hhost₁⟩ := swapOut_eq hout
  rw [hhost, Option.map_some, houtPairs] at hhost₁
  obtain ⟨hmode₂, hspare⟩ := runOps_host hops hrun
  obtain ⟨host₂, hhost₂, hsame⟩ := hspare _ hhost₁
  obtain ⟨hmode₃, -, hindexer, hkv₃⟩ := swapIn_eq hin
  have hkv : Tensor.SameAt (blockAxis c₃.mode) c₃.kvCache b' c₀.kvCache b := by
    rw [hkv₃ _ hhost₂, hinPairs, hmode₃, hmode₂, hmode₁]
    rw [hmode₁] at hsame
    exact (Tensor.sameAt_copySlices hpost' _).trans (hsame.trans (Tensor.sameAt_copySlices hpost _))
  constructor
  · intro hblock t t' ht ht'
    exact hblock.indexer t t' (hindexer.trans ht) ht'
  · intro hpages
    exact ⟨hkv, fun t t' ht ht' => hpages t t' (hindexer.symm.trans ht) ht'⟩

/-- The digits of the index: every entry of a tensor of fewer than ten blocks is different. -/
def digits (idx : List ℕ) : ℕ := idx.foldl (fun n i => 10 * n + i) 1

/-- An MLA cache whose entries are all different, and an empty host cache. -/
def mlaExample (indexer : Bool) : CacheContext ℕ where
  mode := .mla
  kvCache := digits
  hostKvCache := some fun _ => 0
  indexerCache := if indexer then some digits else none

/-- Without an indexer the block comes back whole, though the model has written all GPU blocks in between: block `1` has
the entries of block `0`. -/
theorem sameBlock_roundTrip_noIndexer : ∃ c₁ c₂ c₃,
    (mlaExample false).swapOutBlocksToHost [⟨0, [0], [0]⟩] = some c₁ ∧
    c₁.runOps [.forward (fun _ => 0) fun _ => 0] = some c₂ ∧
      c₂.swapInBlocksFromHost [⟨0, [0], [1]⟩] = some c₃ ∧
    c₃.SameBlock 1 (mlaExample false) 0 ∧ c₃.kvCache [0, 0, 1, 5] = 10005 ∧ c₃.kvCache [0, 0, 2, 5] = 0 := by
  have hout : swapPairs [⟨0, [0], [0]⟩] = [] ++ (0, 0) :: [] := rfl
  have hin : swapPairs [⟨0, [0], [1]⟩] = [] ++ (0, 1) :: [] := rfl
  refine ⟨_, _, _, rfl, rfl, rfl, ?_, by decide, by decide⟩
  refine (sameBlock_roundTrip_iff rfl hout (by simp)
    (show runOps _ [.forward (fun _ => 0) fun _ => 0] = some _ from rfl) (by simp [WorkerOp.SparesHost]) rfl hin
    (by simp)).2 ?_
  intro t t' _ ht'
  cases ht'

/-- With one, block `1` keeps its own indexer pages under the KV entries of block `0`. -/
theorem not_sameBlock_roundTrip : ∃ c₁ c₃,
    (mlaExample true).swapOutBlocksToHost [⟨0, [0], [0]⟩] = some c₁ ∧
    c₁.swapInBlocksFromHost [⟨0, [0], [1]⟩] = some c₃ ∧ ¬ c₃.SameBlock 1 (mlaExample true) 0 := by
  refine ⟨_, _, rfl, rfl, fun hblock => ?_⟩
  have hpage := hblock.indexer _ _ rfl rfl [0, 0, 0] (by decide)
  exact absurd hpage (by decide)

end CacheContext

end NanoEngine
