import Mathlib.Data.List.Sort
import NanoEngine.Lib.Transition

/-!
# NanoEngine.Encoder.Slots — the slots of the vision encoder

`EmbeddingPool` of `dlengine/runtime/context/cache/emb.py`, and `encode` and `free_slots` of `EncoderEngine` in
`dlengine/vl/encoder/encoder_engine.py`.

* A heap of slots is the sorted list of its items.
* The encode service and the listener for free messages are two threads: a message may arrive between any two pool calls
  of an `encode`.
* `Partition`: every slot is free or allocated, not both, and no slot is free twice.
* `encode_leaks_nothing`: when an `encode` gives one free slot to every image, or changes nothing.
-/

namespace NanoEngine.Encoder

open Transition

/-! ## The pool -/

inductive EncodeError
  /-- raised by the vision encoder -/
  | encoder (message : String)
  /-- `"num_tokens={num_tokens} exceeds max_tokens_per_slot={max}"` -/
  | exceedsSlot (numTokens maxTokensPerSlot : ℕ)
  /-- `"EmbeddingPool: no free slots"` -/
  | noFreeSlots
  deriving DecidableEq

/-- `ρ` is a row of `hidden_size` numbers. -/
structure EmbeddingPool (ρ : Type) where
  numSlots : ℕ
  maxTokensPerSlot : ℕ
  hiddenSize : ℕ
  buffer : ℤ → ℕ → Option ρ
  freeSlots : List ℤ
  slotTokenCounts : ℤ → Option ℕ

/-- `heapq.heappush`. -/
def heappush (heap : List ℤ) (item : ℤ) : List ℤ := heap.orderedInsert (· ≤ ·) item

/-- `heapq.heapify`. -/
def heapify (items : List ℤ) : List ℤ := items.insertionSort (· ≤ ·)

/-- What a free message asks for, through `free` or `free_many`. -/
inductive FreeMessage
  | free (slotIdx : ℤ)
  | freeMany (slotIndices : List ℤ)

def FreeMessage.indices : FreeMessage → List ℤ
  | .free slotIdx => [slotIdx]
  | .freeMany slotIndices => slotIndices

namespace EmbeddingPool

variable {ρ : Type}

def new (numSlots maxTokensPerSlot hiddenSize : ℕ) : EmbeddingPool ρ where
  numSlots := numSlots
  maxTokensPerSlot := maxTokensPerSlot
  hiddenSize := hiddenSize
  buffer := fun _ _ => none
  freeSlots := (List.range numSlots).map Nat.cast
  slotTokenCounts := fun _ => none

def allocate (p : EmbeddingPool ρ) (numTokens : ℕ) : Except EncodeError ℤ × EmbeddingPool ρ :=
  if p.maxTokensPerSlot < numTokens then (.error (.exceedsSlot numTokens p.maxTokensPerSlot), p)
  else
    match p.freeSlots with
    | [] => (.error .noFreeSlots, p)
    | slotIdx :: free =>
      (.ok slotIdx, { p with
        freeSlots := free
        slotTokenCounts := Function.update p.slotTokenCounts slotIdx (some numTokens) })

def free (p : EmbeddingPool ρ) (slotIdx : ℤ) : EmbeddingPool ρ :=
  if (p.slotTokenCounts slotIdx).isSome then
    { p with
      slotTokenCounts := Function.update p.slotTokenCounts slotIdx none
      freeSlots := heappush p.freeSlots slotIdx }
  else p

/-- The loop of `free_many`, with the flag `added`. -/
def freeLoop : List ℤ → Bool → EmbeddingPool ρ → Bool × EmbeddingPool ρ
  | [], added, p => (added, p)
  | idx :: slotIndices, added, p =>
    if (p.slotTokenCounts idx).isSome then
      freeLoop slotIndices true { p with
        slotTokenCounts := Function.update p.slotTokenCounts idx none
        freeSlots := p.freeSlots ++ [idx] }
    else freeLoop slotIndices added p

def freeMany (p : EmbeddingPool ρ) (slotIndices : List ℤ) : EmbeddingPool ρ :=
  let r := freeLoop slotIndices false p
  if r.1 then { r.2 with freeSlots := heapify r.2.freeSlots } else r.2

def writeSlot (p : EmbeddingPool ρ) (slotIdx : ℤ) (embeddings : List ρ) : EmbeddingPool ρ :=
  { p with
    buffer := Function.update p.buffer slotIdx fun i =>
      if i < embeddings.length then embeddings[i]? else p.buffer slotIdx i
    slotTokenCounts := Function.update p.slotTokenCounts slotIdx (some embeddings.length) }

def handle (p : EmbeddingPool ρ) : FreeMessage → EmbeddingPool ρ
  | .free slotIdx => p.free slotIdx
  | .freeMany slotIndices => p.freeMany slotIndices

/-- Messages that arrive one after another. -/
def handleAll (p : EmbeddingPool ρ) (messages : List FreeMessage) : EmbeddingPool ρ := messages.foldl handle p

/-- Every slot is free or allocated, not both, and none is free twice. -/
structure Partition (p : EmbeddingPool ρ) : Prop where
  nodup : p.freeSlots.Nodup
  disjoint : ∀ s ∈ p.freeSlots, p.slotTokenCounts s = none
  cover : ∀ s : ℤ, 0 ≤ s ∧ s < p.numSlots ↔ s ∈ p.freeSlots ∨ (p.slotTokenCounts s).isSome

/-! ### What the calls keep -/

theorem Partition.new (numSlots maxTokensPerSlot hiddenSize : ℕ) :
    (EmbeddingPool.new numSlots maxTokensPerSlot hiddenSize : EmbeddingPool ρ).Partition where
  nodup := List.nodup_range.map fun _ _ h => Int.ofNat.inj h
  disjoint _ _ := rfl
  cover s := by
    simp only [EmbeddingPool.new, List.mem_map, List.mem_range, Option.isSome_none, Bool.false_eq_true, or_false]
    constructor
    · intro ⟨h0, hlt⟩
      exact ⟨s.toNat, by omega, by omega⟩
    · rintro ⟨i, hi, rfl⟩
      omega

/-- The order of the free slots is no part of it. -/
theorem Partition.of_perm {p q : EmbeddingPool ρ} (h : p.Partition) (hn : q.numSlots = p.numSlots)
    (hcounts : q.slotTokenCounts = p.slotTokenCounts) (hfree : q.freeSlots.Perm p.freeSlots) : q.Partition where
  nodup := hfree.nodup_iff.2 h.nodup
  disjoint s hs := by
    rw [hcounts]
    exact h.disjoint s (hfree.mem_iff.1 hs)
  cover s := by
    rw [hn, hcounts, hfree.mem_iff]
    exact h.cover s

theorem Partition.not_mem_free {p : EmbeddingPool ρ} (h : p.Partition) {s : ℤ} (hs : (p.slotTokenCounts s).isSome) :
    s ∉ p.freeSlots := by
  intro hmem
  rw [h.disjoint s hmem] at hs
  cases hs

/-- A slot of the table goes back to the free ones. -/
theorem Partition.release {p : EmbeddingPool ρ} (h : p.Partition) {s : ℤ} (hs : (p.slotTokenCounts s).isSome) :
    ({ p with
        slotTokenCounts := Function.update p.slotTokenCounts s none
        freeSlots := p.freeSlots ++ [s] } : EmbeddingPool ρ).Partition where
  nodup := by
    have hout := h.not_mem_free hs
    refine h.nodup.append (List.nodup_singleton s) ?_
    simpa using hout
  disjoint t ht := by
    by_cases hts : t = s
    · subst hts
      exact Function.update_self ..
    · have hfree : t ∈ p.freeSlots := by simpa [hts] using ht
      show Function.update p.slotTokenCounts s none t = none
      rw [Function.update_of_ne hts]
      exact h.disjoint t hfree
  cover t := by
    show _ ↔ t ∈ p.freeSlots ++ [s] ∨ (Function.update p.slotTokenCounts s none t).isSome
    rw [h.cover t]
    by_cases hts : t = s
    · subst hts
      simp [hs]
    · simp [hts]

/-- A free slot goes to the table. -/
theorem Partition.take {p : EmbeddingPool ρ} (h : p.Partition) {s : ℤ} {free : List ℤ}
    (hfree : p.freeSlots = s :: free) (n : ℕ) :
    ({ p with
        freeSlots := free
        slotTokenCounts := Function.update p.slotTokenCounts s (some n) } : EmbeddingPool ρ).Partition := by
  have hnodup := h.nodup
  rw [hfree, List.nodup_cons] at hnodup
  obtain ⟨hout, hnodup⟩ := hnodup
  refine ⟨hnodup, fun t ht => ?_, fun t => ?_⟩
  · have hts : t ≠ s := fun he => hout (he ▸ ht)
    show Function.update p.slotTokenCounts s (some n) t = none
    rw [Function.update_of_ne hts]
    exact h.disjoint t (by simp [hfree, ht])
  · show _ ↔ t ∈ free ∨ (Function.update p.slotTokenCounts s (some n) t).isSome
    rw [h.cover t, hfree]
    by_cases hts : t = s
    · subst hts
      simp
    · simp [hts]

theorem Partition.allocate {p q : EmbeddingPool ρ} (h : p.Partition) {n : ℕ} {r : Except EncodeError ℤ}
    (hr : p.allocate n = (r, q)) : q.Partition := by
  unfold EmbeddingPool.allocate at hr
  split at hr
  case isTrue =>
    cases hr
    exact h
  case isFalse =>
    split at hr
    case h_1 =>
      cases hr
      exact h
    case h_2 s free hfree =>
      cases hr
      exact h.take hfree n

/-- The slot that `allocate` returns is in the table. -/
theorem allocate_isSome {p q : EmbeddingPool ρ} {n : ℕ} {s : ℤ} (hr : p.allocate n = (.ok s, q)) :
    (q.slotTokenCounts s).isSome := by
  unfold EmbeddingPool.allocate at hr
  split at hr
  case isTrue => cases hr
  case isFalse =>
    split at hr
    case h_1 => cases hr
    case h_2 => cases hr; simp

theorem heappush_perm (heap : List ℤ) (item : ℤ) : (heappush heap item).Perm (heap ++ [item]) :=
  (List.perm_orderedInsert _ item heap).trans (List.perm_append_singleton item heap).symm

theorem Partition.free {p : EmbeddingPool ρ} (h : p.Partition) (s : ℤ) : (p.free s).Partition := by
  unfold EmbeddingPool.free
  split
  case isTrue hs => exact (h.release hs).of_perm rfl rfl (heappush_perm p.freeSlots s)
  case isFalse => exact h

theorem Partition.freeLoop {p : EmbeddingPool ρ} (h : p.Partition) (indices : List ℤ) (added : Bool) :
    (EmbeddingPool.freeLoop indices added p).2.Partition := by
  induction indices generalizing added p with
  | nil => exact h
  | cons s indices ih =>
    unfold EmbeddingPool.freeLoop
    split
    case isTrue hs => exact ih (h.release hs) true
    case isFalse => exact ih h added

theorem Partition.freeMany {p : EmbeddingPool ρ} (h : p.Partition) (indices : List ℤ) :
    (p.freeMany indices).Partition := by
  unfold EmbeddingPool.freeMany
  have hloop := h.freeLoop indices false
  dsimp only
  split
  case isTrue => exact hloop.of_perm rfl rfl (List.perm_insertionSort _ _)
  case isFalse => exact hloop

theorem Partition.handle {p : EmbeddingPool ρ} (h : p.Partition) (m : FreeMessage) : (p.handle m).Partition := by
  cases m with
  | free s => exact h.free s
  | freeMany indices => exact h.freeMany indices

theorem Partition.handleAll {p : EmbeddingPool ρ} (h : p.Partition) (messages : List FreeMessage) :
    (p.handleAll messages).Partition := by
  induction messages generalizing p with
  | nil => exact h
  | cons m messages ih => exact ih (h.handle m)

/-- Writing a slot of the table changes only its token count. -/
theorem Partition.writeSlot {p : EmbeddingPool ρ} (h : p.Partition) {s : ℤ} (hs : (p.slotTokenCounts s).isSome)
    (embeddings : List ρ) : (p.writeSlot s embeddings).Partition where
  nodup := h.nodup
  disjoint t ht := by
    have hts : t ≠ s := fun he => h.not_mem_free hs (he ▸ ht)
    show Function.update p.slotTokenCounts s (some embeddings.length) t = none
    rw [Function.update_of_ne hts]
    exact h.disjoint t ht
  cover t := by
    refine (h.cover t).trans ?_
    show _ ↔ t ∈ p.freeSlots ∨ (Function.update p.slotTokenCounts s (some embeddings.length) t).isSome
    by_cases hts : t = s
    · subst hts
      simp [hs]
    · simp [hts]

/-! ### A slot that no message names -/

theorem freeLoop_counts {s : ℤ} {indices : List ℤ} (hs : s ∉ indices) (added : Bool) (p : EmbeddingPool ρ) :
    (freeLoop indices added p).2.slotTokenCounts s = p.slotTokenCounts s := by
  induction indices generalizing added p with
  | nil => rfl
  | cons t indices ih =>
    rw [List.mem_cons, not_or] at hs
    unfold freeLoop
    split
    case isTrue =>
      rw [ih hs.2]
      exact Function.update_of_ne hs.1 ..
    case isFalse => exact ih hs.2 added p

theorem handle_counts {s : ℤ} {m : FreeMessage} (hs : s ∉ m.indices) (p : EmbeddingPool ρ) :
    (p.handle m).slotTokenCounts s = p.slotTokenCounts s := by
  cases m with
  | free t =>
    have hst : s ≠ t := by simpa [FreeMessage.indices] using hs
    show (p.free t).slotTokenCounts s = _
    unfold EmbeddingPool.free
    split
    case isTrue => exact Function.update_of_ne hst ..
    case isFalse => rfl
  | freeMany indices =>
    have hloop := freeLoop_counts hs false p
    show (p.freeMany indices).slotTokenCounts s = _
    unfold EmbeddingPool.freeMany
    dsimp only
    split
    case isTrue => exact hloop
    case isFalse => exact hloop

theorem handleAll_counts {s : ℤ} {messages : List FreeMessage} (hs : ∀ m ∈ messages, s ∉ m.indices)
    (p : EmbeddingPool ρ) : (p.handleAll messages).slotTokenCounts s = p.slotTokenCounts s := by
  induction messages generalizing p with
  | nil => rfl
  | cons m messages ih =>
    rw [List.forall_mem_cons] at hs
    show ((p.handle m).handleAll messages).slotTokenCounts s = _
    rw [ih hs.2, handle_counts hs.1]

/-! ### The number of slots -/

theorem allocate_numSlots {p q : EmbeddingPool ρ} {n : ℕ} {r : Except EncodeError ℤ} (hr : p.allocate n = (r, q)) :
    q.numSlots = p.numSlots := by
  unfold EmbeddingPool.allocate at hr
  split at hr
  case isTrue => cases hr; rfl
  case isFalse =>
    split at hr
    case h_1 => cases hr; rfl
    case h_2 => cases hr; rfl

theorem freeLoop_numSlots (indices : List ℤ) (added : Bool) (p : EmbeddingPool ρ) :
    (freeLoop indices added p).2.numSlots = p.numSlots := by
  induction indices generalizing added p with
  | nil => rfl
  | cons s indices ih =>
    unfold freeLoop
    split
    case isTrue => exact ih true _
    case isFalse => exact ih added p

@[simp] theorem handle_numSlots (p : EmbeddingPool ρ) (m : FreeMessage) : (p.handle m).numSlots = p.numSlots := by
  cases m with
  | free s => simp only [handle, EmbeddingPool.free, apply_ite EmbeddingPool.numSlots, ite_self]
  | freeMany indices =>
    simp only [handle, EmbeddingPool.freeMany, apply_ite EmbeddingPool.numSlots, ite_self]
    exact freeLoop_numSlots indices false p

@[simp] theorem handleAll_numSlots (p : EmbeddingPool ρ) (messages : List FreeMessage) :
    (p.handleAll messages).numSlots = p.numSlots := by
  induction messages generalizing p with
  | nil => rfl
  | cons m messages ih => exact (ih _).trans (handle_numSlots p m)

end EmbeddingPool

/-! ## `encode` -/

structure VisionSlotMeta where
  encoderEngineId : String
  slotIdx : ℤ
  numTokens : ℕ
  hiddenSize : ℕ
  maxTokensPerSlot : ℕ
  deriving DecidableEq

structure EncoderEngine (ρ : Type) where
  engineId : String
  pool : EmbeddingPool ρ

/-- The messages that arrive before the allocation for an image, and between the allocation and the write. -/
structure Arrivals where
  before : List FreeMessage := []
  during : List FreeMessage := []

/-- No message arrives. -/
def quiet : ℕ → Arrivals := fun _ => {}

namespace EncoderEngine

variable {ρ : Type}

/-- The loop of `encode` from image `i` on. -/
def encodeLoop (engineId : String) (arrivals : ℕ → Arrivals) :
    ℕ → List (List ρ) → EmbeddingPool ρ → Except EncodeError (List VisionSlotMeta) × EmbeddingPool ρ
  | _, [], p => (.ok [], p)
  | i, emb :: embs, p =>
    match (p.handleAll (arrivals i).before).allocate emb.length with
    | (.error e, p) => (.error e, p)
    | (.ok slotIdx, p) =>
      match encodeLoop engineId arrivals (i + 1) embs ((p.handleAll (arrivals i).during).writeSlot slotIdx emb) with
      | (.error e, p) => (.error e, p)
      | (.ok results, p) =>
        (.ok (⟨engineId, slotIdx, emb.length, p.hiddenSize, p.maxTokensPerSlot⟩ :: results), p)

/-- `encode`: `images` is what the vision encoder returns. -/
def encode (x : EncoderEngine ρ) (images : Except String (List (List ρ))) (arrivals : ℕ → Arrivals) :
    Except EncodeError (List VisionSlotMeta) × EncoderEngine ρ :=
  match images with
  | .error message => (.error (.encoder message), x)
  | .ok embs =>
    let r := encodeLoop x.engineId arrivals 0 embs x.pool
    (r.1, { x with pool := r.2 })

/-- Some message names the slot of an image between its allocation and its write. -/
def loopRaces (engineId : String) (arrivals : ℕ → Arrivals) : ℕ → List (List ρ) → EmbeddingPool ρ → Bool
  | _, [], _ => false
  | i, emb :: embs, p =>
    match (p.handleAll (arrivals i).before).allocate emb.length with
    | (.error _, _) => false
    | (.ok slotIdx, p) =>
      (arrivals i).during.any (fun m => m.indices.contains slotIdx) ||
        loopRaces engineId arrivals (i + 1) embs ((p.handleAll (arrivals i).during).writeSlot slotIdx emb)

end EncoderEngine

inductive EncoderOp (ρ : Type)
  | encode (images : Except String (List (List ρ))) (arrivals : ℕ → Arrivals)
  | freed (message : FreeMessage)

/-- The encoder, call by call. -/
def encoderSystem (ρ : Type) (engineId : String) (numSlots maxTokensPerSlot hiddenSize : ℕ) :
    System (EncoderEngine ρ) (EncoderOp ρ) where
  initial x := x = ⟨engineId, EmbeddingPool.new numSlots maxTokensPerSlot hiddenSize⟩
  next x
    | .encode images arrivals => some (x.encode images arrivals).2
    | .freed message => some { x with pool := x.pool.handle message }

/-- No free message names a slot that is being written. -/
def writesUndisturbed {ρ : Type} (x : EncoderEngine ρ) : EncoderOp ρ → Bool
  | .encode (.ok embs) arrivals => !EncoderEngine.loopRaces x.engineId arrivals 0 embs x.pool
  | _ => true

namespace EncoderEngine

variable {ρ : Type}

/-- What an `encode` leaves, when it returns and when it raises. -/
structure AllOrNothing (x : EncoderEngine ρ) (images : Except String (List (List ρ))) : Prop where
  ok : ∀ results x', x.encode images quiet = (.ok results, x') → ∃ embs, images = .ok embs ∧
    results.length = embs.length ∧ (results.map (·.slotIdx)).Nodup ∧
      ∀ r ∈ results, r.slotIdx ∈ x.pool.freeSlots
  error : ∀ e x', x.encode images quiet = (.error e, x') →
    x'.pool.freeSlots = x.pool.freeSlots ∧ x'.pool.slotTokenCounts = x.pool.slotTokenCounts

/-- Every image fits into a slot and there is a slot for every image, or it fails at once. -/
def Fits (x : EncoderEngine ρ) : Except String (List (List ρ)) → Prop
  | .error _ => True
  | .ok embs =>
    (∀ emb ∈ embs, emb.length ≤ x.pool.maxTokensPerSlot) ∧ embs.length ≤ x.pool.freeSlots.length ∨
      x.pool.freeSlots = [] ∨ ∀ emb ∈ embs.head?, x.pool.maxTokensPerSlot < emb.length

/-! ### One `encode` in quiet -/

/-- The pool after an image took the slot `s`. -/
def placed (p : EmbeddingPool ρ) (s : ℤ) (free : List ℤ) (emb : List ρ) : EmbeddingPool ρ :=
  { p with
    freeSlots := free
    slotTokenCounts := Function.update p.slotTokenCounts s (some emb.length) : EmbeddingPool ρ }.writeSlot s emb

section Quiet

variable {engineId : String} {i : ℕ} {p : EmbeddingPool ρ} {emb : List ρ} {embs : List (List ρ)}

theorem encodeLoop_tooLong (h : p.maxTokensPerSlot < emb.length) :
    encodeLoop engineId quiet i (emb :: embs) p = (.error (.exceedsSlot emb.length p.maxTokensPerSlot), p) := by
  simp [encodeLoop, quiet, EmbeddingPool.handleAll, EmbeddingPool.allocate, h]

theorem encodeLoop_full (h : emb.length ≤ p.maxTokensPerSlot) (hfree : p.freeSlots = []) :
    encodeLoop engineId quiet i (emb :: embs) p = (.error .noFreeSlots, p) := by
  simp [encodeLoop, quiet, EmbeddingPool.handleAll, EmbeddingPool.allocate, hfree, Nat.not_lt.2 h]

theorem encodeLoop_placed {s : ℤ} {free : List ℤ} (h : emb.length ≤ p.maxTokensPerSlot)
    (hfree : p.freeSlots = s :: free) :
    encodeLoop engineId quiet i (emb :: embs) p =
      match encodeLoop engineId quiet (i + 1) embs (placed p s free emb) with
      | (.error e, p) => (.error e, p)
      | (.ok results, p) => (.ok (⟨engineId, s, emb.length, p.hiddenSize, p.maxTokensPerSlot⟩ :: results), p) := by
  simp [encodeLoop, quiet, EmbeddingPool.handleAll, EmbeddingPool.allocate, hfree, Nat.not_lt.2 h, placed]

/-- The slots that are handed out are the first free ones. -/
theorem encodeLoop_ok {results : List VisionSlotMeta} {q : EmbeddingPool ρ}
    (h : encodeLoop engineId quiet i embs p = (.ok results, q)) :
    (∀ emb ∈ embs, emb.length ≤ p.maxTokensPerSlot) ∧ embs.length ≤ p.freeSlots.length ∧
      results.map (·.slotIdx) = p.freeSlots.take embs.length := by
  induction embs generalizing i p results with
  | nil =>
    cases h
    simp
  | cons emb embs ih =>
    rcases Nat.lt_or_ge p.maxTokensPerSlot emb.length with hlong | hfits
    · rw [encodeLoop_tooLong hlong] at h
      cases h
    · cases hfree : p.freeSlots with
      | nil =>
        rw [encodeLoop_full hfits hfree] at h
        cases h
      | cons s free =>
        rw [encodeLoop_placed hfits hfree] at h
        cases hrest : encodeLoop engineId quiet (i + 1) embs (placed p s free emb) with
        | mk r q' =>
          rw [hrest] at h
          cases r with
          | error e => cases h
          | ok rest =>
            cases h
            obtain ⟨hall, hlen, hmap⟩ := ih hrest
            refine ⟨List.forall_mem_cons.2 ⟨hfits, hall⟩, ?_, ?_⟩
            · simpa [placed, EmbeddingPool.writeSlot] using hlen
            · simpa [placed, EmbeddingPool.writeSlot] using hmap

theorem encodeLoop_fits (hall : ∀ emb ∈ embs, emb.length ≤ p.maxTokensPerSlot)
    (hlen : embs.length ≤ p.freeSlots.length) :
    ∃ results q, encodeLoop engineId quiet i embs p = (.ok results, q) := by
  induction embs generalizing i p with
  | nil => exact ⟨[], p, rfl⟩
  | cons emb embs ih =>
    obtain ⟨hfits, hall⟩ := List.forall_mem_cons.1 hall
    obtain ⟨s, free, hfree⟩ := List.exists_cons_of_length_pos (Nat.lt_of_lt_of_le (Nat.succ_pos _) hlen)
    have hrest : embs.length ≤ (placed p s free emb).freeSlots.length := by
      rw [hfree] at hlen
      exact Nat.le_of_succ_le_succ hlen
    obtain ⟨results, q, hok⟩ := ih (i := i + 1) (p := placed p s free emb) hall hrest
    rw [encodeLoop_placed hfits hfree, hok]
    exact ⟨_, _, rfl⟩

theorem encodeLoop_free_le : (encodeLoop engineId quiet i embs p).2.freeSlots.length ≤ p.freeSlots.length := by
  induction embs generalizing i p with
  | nil => exact le_rfl
  | cons emb embs ih =>
    rcases Nat.lt_or_ge p.maxTokensPerSlot emb.length with hlong | hfits
    · rw [encodeLoop_tooLong hlong]
    · cases hfree : p.freeSlots with
      | nil => rw [encodeLoop_full hfits hfree, hfree]
      | cons s free =>
        rw [encodeLoop_placed hfits hfree]
        have hrest := ih (i := i + 1) (p := placed p s free emb)
        have hless : (placed p s free emb).freeSlots.length ≤ (s :: free).length := Nat.le_succ _
        split
        case h_1 e q hq =>
          rw [hq] at hrest
          exact hrest.trans hless
        case h_2 results q hq =>
          rw [hq] at hrest
          exact hrest.trans hless

/-- Once the first image has its slot, one free slot less is left. -/
theorem encodeLoop_free_lt (h : emb.length ≤ p.maxTokensPerSlot) (hfree : p.freeSlots ≠ []) :
    (encodeLoop engineId quiet i (emb :: embs) p).2.freeSlots.length < p.freeSlots.length := by
  obtain ⟨s, free, hfree⟩ := List.exists_cons_of_ne_nil hfree
  have hrest : (encodeLoop engineId quiet (i + 1) embs (placed p s free emb)).2.freeSlots.length ≤
      (placed p s free emb).freeSlots.length := encodeLoop_free_le
  have hless : (placed p s free emb).freeSlots.length < p.freeSlots.length := by
    rw [hfree]
    exact Nat.lt_succ_self _
  rw [encodeLoop_placed h hfree]
  split
  case h_1 e q hq =>
    rw [hq] at hrest
    exact lt_of_le_of_lt hrest hless
  case h_2 results q hq =>
    rw [hq] at hrest
    exact lt_of_le_of_lt hrest hless

end Quiet

theorem allOrNothing_of_fits {x : EncoderEngine ρ} {images : Except String (List (List ρ))} (hx : x.pool.Partition)
    (h : x.Fits images) : x.AllOrNothing images := by
  cases images with
  -- the request was refused before any slot was taken
  | error message =>
    refine ⟨fun results x' he => ?_, fun e x' he => ?_⟩
    · cases he
    · cases he
      exact ⟨rfl, rfl⟩
  | ok embs =>
    refine ⟨fun results x' he => ?_, fun e x' he => ?_⟩
    · -- the images took a prefix of the free slots
      have hloop : encodeLoop x.engineId quiet 0 embs x.pool = (.ok results, x'.pool) := by
        cases he' : encodeLoop x.engineId quiet 0 embs x.pool with
        | mk r q =>
          simp only [encode, he', Prod.mk.injEq] at he
          obtain ⟨rfl, rfl⟩ := he
          rfl
      obtain ⟨-, hlen, hmap⟩ := encodeLoop_ok hloop
      have hcount : results.length = embs.length := by
        have hl := congrArg List.length hmap
        rw [List.length_map, List.length_take, Nat.min_eq_left hlen] at hl
        exact hl
      refine ⟨embs, rfl, hcount, ?_, fun r hr => ?_⟩
      · rw [hmap]
        exact hx.nodup.sublist (List.take_sublist _ _)
      · have hmem : r.slotIdx ∈ results.map (·.slotIdx) := List.mem_map_of_mem hr
        rw [hmap] at hmem
        exact List.mem_of_mem_take hmem
    · -- it did not fit, so the first image failed and the pool is the one before
      rcases h with ⟨hall, hlen⟩ | h
      · obtain ⟨results, q, hok⟩ : ∃ results q, encodeLoop x.engineId quiet 0 embs x.pool = (.ok results, q) :=
          encodeLoop_fits hall hlen
        simp [encode, hok] at he
      · cases embs with
        | nil => cases he
        | cons emb embs =>
          rcases Nat.lt_or_ge x.pool.maxTokensPerSlot emb.length with hlong | hfits
          · simp only [encode, encodeLoop_tooLong hlong, Prod.mk.injEq] at he
            obtain ⟨-, rfl⟩ := he
            exact ⟨rfl, rfl⟩
          · have hfree : x.pool.freeSlots = [] := by
              refine h.resolve_right fun hhead => ?_
              exact Nat.lt_irrefl _ (Nat.lt_of_lt_of_le (hhead emb rfl) hfits)
            simp only [encode, encodeLoop_full hfits hfree, Prod.mk.injEq] at he
            obtain ⟨-, rfl⟩ := he
            exact ⟨rfl, rfl⟩

theorem fits_of_allOrNothing {x : EncoderEngine ρ} {images : Except String (List (List ρ))}
    (h : x.AllOrNothing images) : x.Fits images := by
  cases images with
  | error message => trivial
  | ok embs =>
    cases embs with
    | nil => exact .inl ⟨by simp, Nat.zero_le _⟩
    | cons emb embs =>
      by_cases hfree : x.pool.freeSlots = []
      · exact .inr (.inl hfree)
      · rcases Nat.lt_or_ge x.pool.maxTokensPerSlot emb.length with hlong | hfits
        · exact .inr (.inr fun emb' he => by cases he; exact hlong)
        · left
          cases hloop : encodeLoop x.engineId quiet 0 (emb :: embs) x.pool with
          | mk r q =>
            cases r with
            | ok results => exact ⟨(encodeLoop_ok hloop).1, (encodeLoop_ok hloop).2.1⟩
            | error e =>
              -- a slot of the first image is missing from the free ones
              have hless : (encodeLoop x.engineId quiet 0 (emb :: embs) x.pool).2.freeSlots.length <
                x.pool.freeSlots.length :=
                encodeLoop_free_lt hfits hfree
              have hsame := (h.error e { x with pool := q } (by simp [encode, hloop])).1
              rw [hloop] at hless
              exact absurd (congrArg List.length hsame) (Nat.ne_of_lt hless)

/-! ### Partition over runs -/

theorem loopRaces_partition {engineId : String} {arrivals : ℕ → Arrivals} {i : ℕ} {embs : List (List ρ)}
    {p : EmbeddingPool ρ} (hp : p.Partition) (hraces : loopRaces engineId arrivals i embs p = false) :
    (encodeLoop engineId arrivals i embs p).2.Partition := by
  induction embs generalizing i p with
  | nil => exact hp
  | cons emb embs ih =>
    have hbefore := hp.handleAll (arrivals i).before
    rw [encodeLoop]
    rw [loopRaces] at hraces
    cases halloc : (p.handleAll (arrivals i).before).allocate emb.length with
    | mk r q =>
      rw [halloc] at hraces
      have hq := hbefore.allocate halloc
      cases r with
      | error e => exact hq
      | ok s =>
        obtain ⟨hduring, hrest⟩ := Bool.or_eq_false_iff.1 hraces
        have hout : ∀ m ∈ (arrivals i).during, s ∉ m.indices := by
          intro m hm hs
          have hnot := List.any_eq_false.1 hduring m hm
          exact hnot (List.contains_iff_mem.2 hs)
        have hsome : ((q.handleAll (arrivals i).during).slotTokenCounts s).isSome := by
          rw [EmbeddingPool.handleAll_counts hout]
          exact EmbeddingPool.allocate_isSome halloc
        have hwritten := (hq.handleAll (arrivals i).during).writeSlot hsome emb
        have hloop := ih hwritten hrest
        dsimp only
        split
        case h_1 e q' hq' =>
          rw [hq'] at hloop
          exact hloop
        case h_2 results q' hq' =>
          rw [hq'] at hloop
          exact hloop

theorem encodeLoop_numSlots (engineId : String) (arrivals : ℕ → Arrivals) (i : ℕ) (embs : List (List ρ))
    (p : EmbeddingPool ρ) : (encodeLoop engineId arrivals i embs p).2.numSlots = p.numSlots := by
  induction embs generalizing i p with
  | nil => rfl
  | cons emb embs ih =>
    rw [encodeLoop]
    cases halloc : (p.handleAll (arrivals i).before).allocate emb.length with
    | mk r q =>
      have hq := (EmbeddingPool.allocate_numSlots halloc).trans (EmbeddingPool.handleAll_numSlots _ _)
      cases r with
      | error e => exact hq
      | ok s =>
        have hloop := ih (i + 1) ((q.handleAll (arrivals i).during).writeSlot s emb)
        have hwritten : ((q.handleAll (arrivals i).during).writeSlot s emb).numSlots = q.numSlots :=
          EmbeddingPool.handleAll_numSlots _ _
        rw [hwritten, hq] at hloop
        dsimp only
        split
        case h_1 e q' hq' =>
          rw [hq'] at hloop
          exact hloop
        case h_2 results q' hq' =>
          rw [hq'] at hloop
          exact hloop

end EncoderEngine

section Runs

variable {ρ : Type} {engineId : String} {numSlots maxTokensPerSlot hiddenSize : ℕ}

theorem partition_invariant :
    Invariant (encoderSystem ρ engineId numSlots maxTokensPerSlot hiddenSize) writesUndisturbed
      fun x => x.pool.numSlots = numSlots ∧ x.pool.Partition where
  initial x hx := by
    cases hx
    exact ⟨rfl, .new numSlots maxTokensPerSlot hiddenSize⟩
  next x op x' hI hG hn := by
    obtain ⟨hnum, hp⟩ := hI
    cases op with
    | freed message =>
      cases hn
      exact ⟨(x.pool.handle_numSlots message).trans hnum, hp.handle message⟩
    | encode images arrivals =>
      cases hn
      cases images with
      | error message => exact ⟨hnum, hp⟩
      | ok embs =>
        have hraces : EncoderEngine.loopRaces x.engineId arrivals 0 embs x.pool = false := by
          simpa [writesUndisturbed] using hG
        exact ⟨(EncoderEngine.encodeLoop_numSlots _ _ _ _ _).trans hnum,
          EncoderEngine.loopRaces_partition hp hraces⟩

/-- **No slot leaks** along a run in which no free message names a slot that is being written: free and allocated slots
partition the pool, and an `encode` is all or nothing exactly when every image fits and has a free slot, or the first
image already fails. -/
theorem encode_leaks_nothing {x : EncoderEngine ρ}
    (hx : Reachable (encoderSystem ρ engineId numSlots maxTokensPerSlot hiddenSize) writesUndisturbed x) :
    x.pool.numSlots = numSlots ∧ x.pool.Partition ∧ ∀ images, x.AllOrNothing images ↔ x.Fits images := by
  obtain ⟨hnum, hp⟩ := partition_invariant.holds hx
  exact ⟨hnum, hp, fun images => ⟨EncoderEngine.fits_of_allOrNothing, EncoderEngine.allOrNothing_of_fits hp⟩⟩

/-- Two slots, images of one and two rows, then a free message with an unknown and a repeated slot. -/
theorem encode_leaks_nothing_freed : ∃ x : EncoderEngine Unit,
    Reachable (encoderSystem Unit "encoder" 2 4 8) writesUndisturbed x ∧ x.pool.freeSlots = [1] ∧
      x.pool.Partition ∧ ∀ images, x.AllOrNothing images ↔ x.Fits images := by
  obtain ⟨x, hx, hfree⟩ := Reachable.exists_of_run (T := encoderSystem Unit "encoder" 2 4 8)
    (G := writesUndisturbed)
    (P := fun x => x.pool.freeSlots == [1])
    [.encode (.ok [[()], [(), ()]]) quiet, .freed (.freeMany [1, 7, 1])] rfl (by decide)
  obtain ⟨-, hp, hfits⟩ := encode_leaks_nothing hx
  exact ⟨x, hx, by simpa using hfree, hp, hfits⟩

/-- Three images and two slots: `encode` raises and both slots stay allocated. -/
theorem not_allOrNothing :
    Reachable (encoderSystem Unit "encoder" 2 4 8) always ⟨"encoder", .new 2 4 8⟩ ∧
      ¬(⟨"encoder", .new 2 4 8⟩ : EncoderEngine Unit).AllOrNothing (.ok [[()], [()], [()]]) := by
  refine ⟨.initial rfl, fun h => ?_⟩
  have hfree := (h.error .noFreeSlots _ rfl).1
  revert hfree
  decide

/-- A free message for slot 0 between its allocation and its write: it is free and in the table. -/
example :
    let x : EncoderEngine Unit := ⟨"encoder", .new 2 4 8⟩
    let pool := (x.encode (.ok [[()]]) fun _ => { during := [.free 0] }).2.pool
    pool.freeSlots = [0, 1] ∧ (pool.slotTokenCounts 0).isSome := by
  decide

end Runs

end NanoEngine.Encoder
