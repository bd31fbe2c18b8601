import NanoEngine.Lib.Buffer
import NanoEngine.Worker.DecodeInput

/-!
# NanoEngine.Worker.DecodeGraph — decode steps that replay a captured graph

`DecodeGraphRunner` of `runtime/runner/graph_runner.py` and the decode of `run_model` in
`runtime/runner/model_runner.py`, without speculative tokens and with eager mode neither enforced nor asked for by the
environment.  What the attention libraries plan for themselves is left out.

* A graph of size `masterBs` reads the first `masterBs` cells of the buffers, and the compressed tables by state slot.
* `copies`: the copies of one replay in their order, each of which may refuse its source.
* `Holds`: what the graph finds there for a batch.
* `graph_decodes`: when every batch finds a graph and its buffers.
-/

namespace NanoEngine

open Buffers

/-- The pages of row `i` for a ratio. -/
def DecodeBatch.pages (batch : DecodeBatch) (ratio : ℤ) (i : ℕ) : List ℕ :=
  ((batch.wire.compressedBlockTables ratio).map fun perSeq => perSeq.getD i []).getD []

namespace DecodeConfig

/-- `_make_bs_list`. -/
def makeBsList (maxBs : ℕ) : List ℕ :=
  ([1, 2, 4, 8].filter fun x => decide (x ≤ maxBs)) ++ List.range' 16 (maxBs / 16) 16

variable (c : DecodeConfig)

def maxBs : ℕ := min c.maxNumSeqs 512

def maxNumBlocks : ℕ := (c.maxModelLen + c.blockSize - 1) / c.blockSize

/-- `_flashinfer_decode_enabled`. -/
def flashinferDecodeEnabled : Bool := c.useFlashinferDecode && !c.isMla && !c.isDsv4

/-- The ratio has a persistent table. -/
def hasCompressed (ratio : ℤ) : Prop := c.isDsv4 = true ∧ 0 < c.maxCompressedBlocks ratio

instance (ratio : ℤ) : Decidable (c.hasCompressed ratio) := inferInstanceAs (Decidable (_ ∧ _))

end DecodeConfig

/-- `DecodeGraphContext`, and `num_real_reqs` of the HiSparse context.  A buffer that the plan has no use for is there,
but nobody reads it. -/
structure DecodeBuffers (c : DecodeConfig) where
  inputIds : Buffer ℤ c.maxBs
  positions : Buffer ℕ c.maxBs
  slotMapping : Buffer ℤ c.maxBs
  contextLens : Buffer ℕ c.maxBs
  blockTables : Buffer (Buffer ℕ c.maxNumBlocks) c.maxBs
  hisparseSlots : Buffer ℤ c.maxBs
  hisparseSlotMapping : Buffer ℤ c.maxBs
  gdnStateSlots : Buffer ℤ c.maxBs
  dsv4StateSlots : Buffer ℤ c.maxBs
  compressedBlockTables : ℤ → Buffer (List ℕ) (c.maxBs + 1)
  numRealReqs : ℕ

inductive DecodeError
  /-- `StopIteration` of `next(x for x in self._bs_list if x >= bs)` -/
  | stopIteration
  /-- the shapes of a copy do not match -/
  | shapeMismatch
  deriving DecidableEq

/-- How `run_model` decodes. -/
inductive DecodePath
  | eager
  | replay (masterBs : ℕ)
  deriving DecidableEq

/-- Copies one after another, up to the first that refuses. -/
def runCopies {σ : Type} : List (σ → Option σ) → σ → Bool × σ
  | [], g => (true, g)
  | f :: fs, g =>
    match f g with
    | none => (false, g)
    | some g => runCopies fs g

namespace DecodeConfig

variable (c : DecodeConfig)

/-- The buffers of `__init__`. -/
def initBuffers : DecodeBuffers c where
  inputIds := .full _ 0
  positions := .full _ 0
  slotMapping := .full _ 0
  contextLens := .full _ 0
  blockTables := .full _ (.full _ 0)
  hisparseSlots := .full _ c.maxNumSeqs
  hisparseSlotMapping := .full _ (-1)
  gdnStateSlots := .full _ (c.dummyGdnSlot.getD 0)
  dsv4StateSlots := .full _ c.maxNumSeqs
  compressedBlockTables := fun ratio => .full _ (c.dummyRow ratio)
  numRealReqs := 0

/-- The persistent tables are filled with dummy pages, then the rows that both tables have are copied. -/
def copyCompressed (src : ℤ → Option (List (List ℕ)))
    (tables : ℤ → Buffer (List ℕ) (c.maxBs + 1)) (ratio : ℤ) :
    Buffer (List ℕ) (c.maxBs + 1) :=
  if c.hasCompressed ratio then
    match src ratio with
    | none => .full _ (c.dummyRow ratio)
    | some rows => (Buffer.full _ (c.dummyRow ratio)).setFront (rows.take (min rows.length (c.maxBs + 1)))
  else tables ratio

def copyHisparseSlots (bs : ℕ) (src : Option (List ℤ)) (g : DecodeBuffers c) : Option (DecodeBuffers c) :=
  match src with
  | none => some { g with hisparseSlots := .full _ c.maxNumSeqs }
  | some slots =>
    ((Buffer.full _ (c.maxNumSeqs : ℤ)).copyFront bs (slots.take bs)).map fun b => { g with hisparseSlots := b }

/-- The mapping of the graph is built from its own buffers; that of the context only says whether there is one. -/
def copyHisparseSlotMapping (masterBs : ℕ) (src : Option (List ℤ))
    (g : DecodeBuffers c) : Option (DecodeBuffers c) :=
  match src with
  | none => some g
  | some _ =>
    match c.buildHotSlotMapping g.numRealReqs (g.hisparseSlots.slice masterBs) (g.positions.slice masterBs) with
    | none => some g
    | some mapping => some { g with hisparseSlotMapping := g.hisparseSlotMapping.setFront mapping }

def padContextLens (bs masterBs : ℕ) (g : DecodeBuffers c) : DecodeBuffers c :=
  if c.flashinferDecodeEnabled ∧ bs < masterBs
    then { g with contextLens := g.contextLens.fillRange bs masterBs 1 } else g

def copyGdnStateSlots (bs : ℕ) (src : Option (List ℤ)) (g : DecodeBuffers c) : Option (DecodeBuffers c) :=
  match c.dummyGdnSlot, src with
  | none, _ => some g
  | some dummySlot, none => some { g with gdnStateSlots := .full _ dummySlot }
  | some dummySlot, some slots =>
    ((Buffer.full _ (dummySlot : ℤ)).copyFront bs slots).map fun b => { g with gdnStateSlots := b }

def copyDsv4StateSlots (bs : ℕ) (src : Option (List ℤ)) (g : DecodeBuffers c) : Option (DecodeBuffers c) :=
  if c.isDsv4 then
    match src with
    | none => some { g with dsv4StateSlots := .full _ c.maxNumSeqs }
    | some slots =>
      ((Buffer.full _ (c.maxNumSeqs : ℤ)).copyFront bs slots).map fun b => { g with dsv4StateSlots := b }
  else some g

/-- The copies of `run`. -/
def copies (masterBs : ℕ) (inputIds : List ℤ) (positions : List ℕ) (context : DecodeContext) :
    List (DecodeBuffers c → Option (DecodeBuffers c)) :=
  let bs := inputIds.length
  [fun g => (g.inputIds.copyFront bs inputIds).map fun b => { g with inputIds := b },
    fun g => (g.positions.copyFront bs positions).map fun b => { g with positions := b },
    fun g => ((Buffer.full _ (-1)).copyFront bs context.slotMapping).map fun b => { g with slotMapping := b },
    c.copyHisparseSlots bs context.hisparseSlots,
    fun g => some { g with numRealReqs := bs },
    c.copyHisparseSlotMapping masterBs context.hisparseSlotMapping,
    fun g => ((Buffer.full _ 0).copyFront context.contextLens.length context.contextLens).map fun b =>
      { g with contextLens := b },
    fun g =>
      ((Buffer.full _ (.full _ 0)).copyRows context.blockTables.length context.maxNumBlocks context.blockTables).map
      fun b => { g with blockTables := b },
    fun g => some (c.padContextLens bs masterBs g),
    c.copyGdnStateSlots bs context.gdnStateSlots,
    c.copyDsv4StateSlots bs context.dsv4StateSlots,
    fun g => some { g with
      compressedBlockTables := c.copyCompressed context.compressedBlockTables g.compressedBlockTables }]

/-- `DecodeGraphRunner.run`: every captured size has one graph, of that size. -/
def run (g : DecodeBuffers c) (inputIds : List ℤ) (positions : List ℕ) (context : DecodeContext) :
    Except DecodeError ℕ × DecodeBuffers c :=
  match (makeBsList c.maxBs).find? fun x => decide (inputIds.length ≤ x) with
  | none => (.error .stopIteration, g)
  | some masterBs =>
    match runCopies (c.copies masterBs inputIds positions context) g with
    | (true, g) => (.ok masterBs, g)
    | (false, g) => (.error .shapeMismatch, g)

/-- `prepare_decode_bytes` and `run_model` on one batch. -/
def runModel (g : DecodeBuffers c) (batch : DecodeBatch) : Except DecodeError DecodePath × DecodeBuffers c :=
  let prepared := c.prepareDecode g.numRealReqs batch
  let g := { g with numRealReqs := prepared.2 }
  if 512 < prepared.1.1.length then (.ok .eager, g)
  else
    let r := c.run g prepared.1.1 prepared.1.2.1 prepared.1.2.2
    (r.1.map .replay, r.2)

/-- The buffers after the batches, whether their steps fail or not. -/
def decodes (batches : List DecodeBatch) (g : DecodeBuffers c) : DecodeBuffers c :=
  batches.foldl (fun g batch => (c.runModel g batch).2) g

/-! ## What a graph finds -/

/-- A slot of the hot buffer, `-1` for the dummy slot. -/
def hotSlotOf (slot : ℤ) (position : ℕ) : ℤ :=
  if 0 ≤ slot ∧ slot < c.maxNumSeqs then slot * c.tokensPerSeq + (position % c.tokensPerSeq : ℕ) else -1

/-- The first `masterBs` rows hold the batch and then padding. -/
structure Holds (batch : DecodeBatch) (g : DecodeBuffers c) (masterBs : ℕ) : Prop where
  inputIds : g.inputIds.slice batch.size = batch.wire.inputIds
  positions : g.positions.slice batch.size = batch.wire.positions
  slotMapping : g.slotMapping.slice masterBs =
    batch.wire.decodeSlotMapping batch.isDummy c.blockSize ++ List.replicate (masterBs - batch.size) (-1)
  contextLens : g.contextLens.slice masterBs = batch.wire.positions.map (· + 1) ++
    List.replicate (masterBs - batch.size) (if c.flashinferDecodeEnabled then 1 else 0)
  blockTables : (g.blockTables.slice masterBs).map Buffer.cells =
    (batch.wire.blockTables.map fun table => table ++ List.replicate (c.maxNumBlocks - table.length) 0) ++
      List.replicate (masterBs - batch.size) (List.replicate c.maxNumBlocks 0)
  hisparseSlots : g.hisparseSlots.slice masterBs =
    (if c.enableHisparse then batch.wire.hisparseSlots.map (clampSlot c.maxNumSeqs)
      else List.replicate batch.size (c.maxNumSeqs : ℤ)) ++
        List.replicate (masterBs - batch.size) (c.maxNumSeqs : ℤ)
  hisparseSlotMapping : c.enableHisparse = true → c.planHasGqa = true → 0 < c.tokensPerSeq →
    g.hisparseSlotMapping.slice masterBs =
      List.zipWith c.hotSlotOf batch.wire.hisparseSlots batch.wire.positions ++
        List.replicate (masterBs - batch.size) (-1)
  gdnStateSlots : ∀ dummySlot, c.dummyGdnSlot = some dummySlot → g.gdnStateSlots.slice masterBs =
    batch.wire.stateSlots.map (clampSlot dummySlot) ++ List.replicate (masterBs - batch.size) (dummySlot : ℤ)
  dsv4StateSlots : c.isDsv4 = true → g.dsv4StateSlots.slice masterBs =
    batch.wire.stateSlots.map (clampSlot c.maxNumSeqs) ++ List.replicate (masterBs - batch.size) (c.maxNumSeqs : ℤ)
  /-- The dummy slot, and a slot that no row has, have no pages. -/
  compressedFree : ∀ ratio, c.hasCompressed ratio → ∀ s ≤ c.maxNumSeqs,
    (s < c.maxNumSeqs → (s : ℤ) ∉ batch.wire.stateSlots) →
      (g.compressedBlockTables ratio).cells[s]? = some (c.dummyRow ratio)
  /-- A real slot that one row has holds the pages of the row. -/
  compressedSlot : ∀ ratio, c.hasCompressed ratio →
    ∀ s < c.maxNumSeqs, ∀ i, batch.wire.stateSlots[i]? = some (s : ℤ) →
    (∀ j, batch.wire.stateSlots[j]? = some (s : ℤ) → j = i) →
      (g.compressedBlockTables ratio).cells[s]? = some ((batch.pages ratio i).take (c.maxCompressedBlocks ratio) ++
        List.replicate (c.maxCompressedBlocks ratio - (batch.pages ratio i).length) (c.dummyPage ratio))

/-- The batch is decoded eagerly, or by a graph that is large enough and finds the batch in its buffers. -/
def GraphDecodes (g : DecodeBuffers c) (batch : DecodeBatch) : Prop :=
  ∃ path g', c.runModel g batch = (.ok path, g') ∧
    ∀ masterBs, path = .replay masterBs → batch.size ≤ masterBs ∧ c.Holds batch g' masterBs

/-- The largest captured size. -/
def lastCaptured (maxNumSeqs : ℕ) : ℕ :=
  if 16 ≤ maxNumSeqs then maxNumSeqs / 16 * 16
  else if 8 ≤ maxNumSeqs then 8
  else if 4 ≤ maxNumSeqs then 4
  else if 2 ≤ maxNumSeqs then 2
  else 1

/-- The batch is beyond the graphs, or the buffers are as wide as the scheduler's batches, some graph is large enough
and the block tables fit. -/
def Captured (batch : DecodeBatch) : Prop :=
  512 < batch.size ∨ c.maxNumSeqs ≤ 512 ∧ batch.size ≤ lastCaptured c.maxNumSeqs ∧
    ∀ table ∈ batch.wire.blockTables, table.length ≤ c.maxNumBlocks

/-! ## The captured sizes -/

theorem mem_makeBsList {n x : ℕ} :
    x ∈ makeBsList n ↔ (x = 1 ∨ x = 2 ∨ x = 4 ∨ x = 8) ∧ x ≤ n ∨ ∃ i < n / 16, x = 16 + 16 * i := by
  simp [makeBsList, List.mem_range', and_comm]

theorem le_of_mem_makeBsList {n x : ℕ} (hx : x ∈ makeBsList n) : x ≤ n := by
  rcases mem_makeBsList.1 hx with ⟨-, hle⟩ | ⟨i, hi, rfl⟩
  · exact hle
  · omega

/-- Some captured size is large enough exactly up to the last. -/
theorem exists_captured {n bs : ℕ} (hn : 1 ≤ n) : (∃ x ∈ makeBsList n, bs ≤ x) ↔ bs ≤ lastCaptured n := by
  constructor
  · rintro ⟨x, hx, hle⟩
    refine hle.trans ?_
    unfold lastCaptured
    rcases mem_makeBsList.1 hx with ⟨hsmall, hxn⟩ | ⟨i, hi, rfl⟩
    · split_ifs <;> omega
    · split_ifs <;> omega
  · intro hle
    refine ⟨lastCaptured n, mem_makeBsList.2 ?_, hle⟩
    unfold lastCaptured
    split_ifs with h16 h8 h4 h2
    · exact .inr ⟨n / 16 - 1, by omega, by omega⟩
    · exact .inl ⟨by simp, h8⟩
    · exact .inl ⟨by simp, h4⟩
    · exact .inl ⟨by simp, h2⟩
    · exact .inl ⟨by simp, hn⟩

/-! ## The copies -/

/-- Copies that come to an end have each found a source they accept. -/
theorem runCopies_isSome {σ : Type} {fs : List (σ → Option σ)} {g : σ} (h : (runCopies fs g).1 = true) :
    ∀ f ∈ fs, ∃ g', (f g').isSome := by
  induction fs generalizing g with
  | nil => simp
  | cons f fs ih =>
    rw [runCopies] at h
    cases hf : f g with
    | none => simp [hf] at h
    | some g' =>
      rw [hf] at h
      exact List.forall_mem_cons.2 ⟨⟨g, by rw [hf]; rfl⟩, ih h⟩

section Copies

variable {c} {g : DecodeBuffers c} {bs masterBs : ℕ}

theorem copyHisparseSlots_eq {src : Option (List ℤ)} (hlen : ∀ slots, src = some slots → slots.length = bs)
    (hbs : bs ≤ masterBs) (hmaster : masterBs ≤ c.maxBs) :
    ∃ b : Buffer ℤ c.maxBs, c.copyHisparseSlots bs src g = some { g with hisparseSlots := b } ∧
      b.slice masterBs = src.getD (List.replicate bs (c.maxNumSeqs : ℤ)) ++
        List.replicate (masterBs - bs) (c.maxNumSeqs : ℤ) := by
  cases src with
  | none =>
    refine ⟨.full _ c.maxNumSeqs, rfl, ?_⟩
    rw [Buffer.slice_full _ hmaster, Option.getD_none, ← List.replicate_add, Nat.add_sub_cancel' hbs]
  | some slots =>
    obtain rfl := hlen slots rfl
    refine ⟨_, ?_, Buffer.slice_full_setFront _ hbs hmaster⟩
    rw [copyHisparseSlots, List.take_length, Buffer.copyFront_length _ rfl (hbs.trans hmaster)]
    rfl

theorem copyGdnStateSlots_eq {src : Option (List ℤ)} (hlen : ∀ slots, src = some slots → slots.length = bs)
    (hsrc : ∀ dummySlot, c.dummyGdnSlot = some dummySlot → src.isSome) (hbs : bs ≤ masterBs)
    (hmaster : masterBs ≤ c.maxBs) :
    ∃ b : Buffer ℤ c.maxBs, c.copyGdnStateSlots bs src g = some { g with gdnStateSlots := b } ∧
      ∀ dummySlot, c.dummyGdnSlot = some dummySlot →
        b.slice masterBs = src.getD [] ++ List.replicate (masterBs - bs) (dummySlot : ℤ) := by
  unfold copyGdnStateSlots
  cases hdummy : c.dummyGdnSlot with
  | none => exact ⟨g.gdnStateSlots, rfl, by simp⟩
  | some dummySlot =>
    obtain ⟨slots, rfl⟩ := Option.isSome_iff_exists.1 (hsrc dummySlot hdummy)
    obtain rfl := hlen slots rfl
    refine ⟨_, by dsimp only; rw [Buffer.copyFront_length _ rfl (hbs.trans hmaster)]; rfl, fun d hd => ?_⟩
    cases hd
    exact Buffer.slice_full_setFront _ hbs hmaster

theorem copyDsv4StateSlots_eq {src : Option (List ℤ)} (hlen : ∀ slots, src = some slots → slots.length = bs)
    (hsrc : c.isDsv4 = true → src.isSome) (hbs : bs ≤ masterBs) (hmaster : masterBs ≤ c.maxBs) :
    ∃ b : Buffer ℤ c.maxBs, c.copyDsv4StateSlots bs src g = some { g with dsv4StateSlots := b } ∧
      (c.isDsv4 = true → b.slice masterBs = src.getD [] ++ List.replicate (masterBs - bs) (c.maxNumSeqs : ℤ)) := by
  unfold copyDsv4StateSlots
  split
  case isFalse hdsv4 => exact ⟨g.dsv4StateSlots, rfl, fun h => absurd h hdsv4⟩
  case isTrue hdsv4 =>
    obtain ⟨slots, rfl⟩ := Option.isSome_iff_exists.1 (hsrc hdsv4)
    obtain rfl := hlen slots rfl
    refine ⟨_, by dsimp only; rw [Buffer.copyFront_length _ rfl (hbs.trans hmaster)]; rfl, fun _ => ?_⟩
    exact Buffer.slice_full_setFront _ hbs hmaster

/-- The context lengths behind the rows of the batch. -/
theorem padContextLens_eq {lens : List ℕ} (hlens : lens.length = bs) (hbs : bs ≤ masterBs)
    (hmaster : masterBs ≤ c.maxBs)
    (hslice : g.contextLens.slice masterBs = lens ++ List.replicate (masterBs - bs) 0) :
    ∃ b : Buffer ℕ c.maxBs, c.padContextLens bs masterBs g = { g with contextLens := b } ∧
      b.slice masterBs = lens ++ List.replicate (masterBs - bs) (if c.flashinferDecodeEnabled then 1 else 0) := by
  unfold padContextLens
  by_cases hlt : bs < masterBs
  · by_cases hflash : c.flashinferDecodeEnabled
    · refine ⟨_, if_pos ⟨hflash, hlt⟩, ?_⟩
      have htake : g.contextLens.slice bs = lens := by
        have hfirst := congrArg (List.take bs) hslice
        rw [Buffer.slice, List.take_take, Nat.min_eq_left hbs, ← hlens, List.take_left] at hfirst
        rw [Buffer.slice, ← hlens]
        exact hfirst
      rw [Buffer.slice_fillRange _ _ hbs hmaster, htake, if_pos hflash]
    · exact ⟨g.contextLens, by simp [hflash], by rw [hslice, if_neg hflash]⟩
  · refine ⟨g.contextLens, by simp [hlt], ?_⟩
    rw [hslice, Nat.sub_eq_zero_of_le (Nat.not_lt.1 hlt), List.replicate_zero, List.replicate_zero]

theorem hotSlot_clampSlot {numRealReqs idx : ℕ} (hidx : idx < numRealReqs) (htokens : 0 < c.tokensPerSeq) (slot : ℤ)
    (position : ℕ) : c.hotSlot numRealReqs idx (clampSlot c.maxNumSeqs slot) position =
      c.hotSlotOf slot position := by
  unfold hotSlot hotSlotOf clampSlot
  by_cases hreal : 0 ≤ slot ∧ slot < c.maxNumSeqs
  · rw [if_pos hreal, if_pos hreal, if_neg (by omega)]
  · rw [if_neg hreal, if_neg hreal, if_pos (by omega)]

/-- The mapping is built from the refilled slots, so the rows of padding get `-1` at whatever positions they hold. -/
theorem copyHisparseSlotMapping_eq {src : Option (List ℤ)} {slots : List ℤ} {positions : List ℕ} {rest : List ℤ}
    (hslots : src.isSome → g.hisparseSlots.slice masterBs = slots.map (clampSlot c.maxNumSeqs) ++ rest)
    (hlen : slots.length = bs) (hpositions : g.positions.slice bs = positions)
    (hreal : g.numRealReqs = bs) (hbs : bs ≤ masterBs) (hmaster : masterBs ≤ c.maxBs) :
    ∃ b : Buffer ℤ c.maxBs, c.copyHisparseSlotMapping masterBs src g = some { g with hisparseSlotMapping := b } ∧
      (src.isSome → 0 < c.tokensPerSeq → b.slice masterBs =
        List.zipWith c.hotSlotOf slots positions ++ List.replicate (masterBs - bs) (-1)) := by
  unfold copyHisparseSlotMapping
  cases src with
  | none => exact ⟨g.hisparseSlotMapping, rfl, fun h => by cases h⟩
  | some mapping =>
    replace hslots := hslots rfl
    -- with no rows for a sequence the mapping has no entry and nothing is copied
    by_cases htokens : c.tokensPerSeq = 0
    · exact ⟨g.hisparseSlotMapping,
        by simp [buildHotSlotMapping, htokens], fun _ h => absurd htokens (Nat.ne_of_gt h)⟩
    · refine ⟨_, by dsimp only; rw [buildHotSlotMapping, if_neg htokens], fun _ _ => ?_⟩
      have hposlen : positions.length = bs := by rw [← hpositions, Buffer.length_slice _ (hbs.trans hmaster)]
      have hslotslen := congrArg List.length hslots
      rw [Buffer.length_slice _ hmaster] at hslotslen
      have hmaplen : (((g.hisparseSlots.slice masterBs).zip (g.positions.slice masterBs)).zipIdx.map fun x =>
          c.hotSlot g.numRealReqs x.2 x.1.1 x.1.2).length = masterBs := by
        simp [Buffer.length_slice _ hmaster]
      have hslice := Buffer.slice_setFront_length g.hisparseSlotMapping (hmaplen.trans_le hmaster)
      rw [hmaplen] at hslice
      rw [hslice]
      refine List.ext_getElem ?_ fun i hi hi' => ?_
      · rw [hmaplen]
        simp only [List.length_append, List.length_zipWith, hlen, hposlen, List.length_replicate]
        omega
      · have him : i < masterBs := by rwa [hmaplen] at hi
        have hslotsi : i < (g.hisparseSlots.slice masterBs).length := by rwa [Buffer.length_slice _ hmaster]
        have hposi : i < (g.positions.slice masterBs).length := by rwa [Buffer.length_slice _ hmaster]
        simp only [List.getElem_map, List.getElem_zipIdx, List.getElem_zip, Nat.zero_add]
        by_cases hib : i < bs
        · -- a row of the batch
          have hraw : i < slots.length := by omega
          have hpos : i < positions.length := by omega
          have hslot : (g.hisparseSlots.slice masterBs)[i] = clampSlot c.maxNumSeqs slots[i] := by
            rw [List.getElem_of_eq hslots, List.getElem_append_left (by simpa using hraw), List.getElem_map]
          have hposition : (g.positions.slice masterBs)[i] = positions[i] := by
            subst hpositions
            simp [Buffer.slice]
          rw [hslot, hposition, hotSlot_clampSlot (hreal ▸ hib) (Nat.pos_of_ne_zero htokens),
            List.getElem_append_left (by simp; omega), List.getElem_zipWith]
        · -- a row of padding
          have hle : g.numRealReqs ≤ i := by omega
          rw [hotSlot, if_pos (.inl hle), List.getElem_append_right (by simp; omega), List.getElem_replicate]

theorem copyCompressed_eq {src : ℤ → Option (List (List ℕ))}
    {tables : ℤ → Buffer (List ℕ) (c.maxBs + 1)} {ratio : ℤ}
    (hratio : c.hasCompressed ratio) (hlen : ∀ rows, src ratio = some rows → rows.length = c.maxBs + 1) {s : ℕ}
    (hs : s < c.maxBs + 1) :
    (c.copyCompressed src tables ratio).cells[s]? = ((src ratio).map (·[s]?)).getD (some (c.dummyRow ratio)) := by
  rw [copyCompressed, if_pos hratio]
  cases hsrc : src ratio with
  | none => simp [Buffer.full, hs]
  | some rows =>
    have hrows := hlen rows hsrc
    have htake : rows.take (min rows.length (c.maxBs + 1)) = rows := List.take_of_length_le (by omega)
    dsimp only
    rw [htake, Buffer.cells_full_setFront _ (Nat.le_of_eq hrows)]
    simp [hrows]

end Copies

/-! ## One batch -/

section Batch

variable {c} {batch : DecodeBatch} {masterBs : ℕ}

/-- Tables of no columns hold nothing, whatever is copied. -/
theorem cells_of_width_zero {w : ℕ} (hw : w = 0) (l : List (Buffer ℕ w)) :
    l.map Buffer.cells = List.replicate l.length [] := by
  refine List.eq_replicate_iff.2 ⟨List.length_map .., fun row hrow => ?_⟩
  obtain ⟨b, -, rfl⟩ := List.mem_map.1 hrow
  exact List.eq_nil_of_length_eq_zero (b.length_cells.trans hw)

/-- The block tables of the batch, with the fill of the persistent ones behind them. -/
theorem copyBlockTables_eq (numRealReqs : ℕ) (hpos : 0 < batch.size)
    (htables : ∀ table ∈ batch.wire.blockTables, table.length ≤ c.maxNumBlocks) (hbs : batch.size ≤ masterBs)
    (hmaster : masterBs ≤ c.maxBs) :
    ∃ b : Buffer (Buffer ℕ c.maxNumBlocks) c.maxBs,
      (Buffer.full c.maxBs (Buffer.full c.maxNumBlocks 0)).copyRows
          (c.prepareDecode numRealReqs batch).1.2.2.blockTables.length
          (c.prepareDecode numRealReqs batch).1.2.2.maxNumBlocks
          (c.prepareDecode numRealReqs batch).1.2.2.blockTables = some b ∧
        (b.slice masterBs).map Buffer.cells =
          (batch.wire.blockTables.map fun table => table ++ List.replicate (c.maxNumBlocks - table.length) 0) ++
            List.replicate (masterBs - batch.size) (List.replicate c.maxNumBlocks 0) := by
  have hlen : batch.wire.blockTables.length = batch.size :=
    batch.oneToken.blockTables.trans batch.oneToken.inputIds.symm
  -- a dummy has no tables; the rows of a batch are padded to its longest one
  cases hdummy : batch.isDummy with
  | true =>
    obtain ⟨htable, hcols⟩ := blockTables_dummy (c := c) numRealReqs hdummy
    rw [htable, hcols]
    refine ⟨_, Buffer.copyRows_le _ [] (Nat.zero_le _) (Nat.zero_le _), ?_⟩
    rw [Buffer.slice_copyRows_full 0 (Nat.zero_le _) hmaster (by simp)]
    cases batch with
    | sequences seqs => cases hdummy
    | dummy =>
      have hsize : DecodeBatch.dummy.size = 1 := rfl
      rw [hsize] at hbs ⊢
      obtain ⟨k, rfl⟩ := Nat.exists_eq_add_of_le' hbs
      simp [DecodeBatch.wire, WireBatch.dummy, List.replicate_succ]
  | false =>
    obtain ⟨htable, hcols⟩ := blockTables_eq (c := c) numRealReqs hdummy hpos
    rw [htable, hcols, List.length_map, hlen]
    rcases Nat.eq_zero_or_pos c.maxNumBlocks with hzero | hwidth
    · -- no table has a block: the one column of zeros is copied to none
      have hone : batch.wire.decodeMaxBlocks = 1 :=
        Nat.le_antisymm (decodeMaxBlocks_le.2 ⟨le_rfl, fun table ht => (htables table ht).trans (by omega)⟩)
          (Nat.le_max_right ..)
      refine ⟨_, by rw [Buffer.copyRows, if_pos ⟨.inl (by omega), .inr hone⟩], ?_⟩
      rw [cells_of_width_zero hzero, Buffer.length_slice _ hmaster, hzero]
      refine (List.eq_replicate_iff.2 ⟨?_, fun row hrow => ?_⟩).symm
      · simp [hlen, Nat.add_sub_cancel' hbs]
      · rcases List.mem_append.1 hrow with hrow | hrow
        · obtain ⟨table, ht, rfl⟩ := List.mem_map.1 hrow
          have hempty := htables table ht
          rw [hzero, Nat.le_zero] at hempty
          simp [List.eq_nil_of_length_eq_zero hempty]
        · exact (List.mem_replicate.1 hrow).2
    · have hle : batch.wire.decodeMaxBlocks ≤ c.maxNumBlocks := decodeMaxBlocks_le.2 ⟨hwidth, htables⟩
      have hfits := (decodeMaxBlocks_le.1 (le_refl batch.wire.decodeMaxBlocks)).2
      refine ⟨_, Buffer.copyRows_le _ _ (hbs.trans hmaster) hle, ?_⟩
      rw [Buffer.slice_copyRows_full 0 (by
        rw [List.length_map, hlen]; exact hbs) hmaster, List.length_map, hlen, List.map_map]
      · congr 1
        refine List.map_congr_left fun table ht => ?_
        have hwidth := hfits table ht
        rw [Function.comp_apply, List.length_append, List.length_replicate, List.append_assoc, ← List.replicate_add]
        congr 2
        omega
      · intro row hrow
        obtain ⟨table, ht, rfl⟩ := List.mem_map.1 hrow
        have hwidth := hfits table ht
        rw [List.length_append, List.length_replicate]
        omega

/-- The copies of a batch that fits all find room, and leave the batch and padding. -/
theorem runCopies_holds (numRealReqs : ℕ) (g : DecodeBuffers c) (hmax : c.maxNumSeqs ≤ 512) (hpos : 0 < batch.size)
    (hsize : batch.size ≤ c.maxNumSeqs)
    (htables : ∀ table ∈ batch.wire.blockTables, table.length ≤ c.maxNumBlocks)
    (hbs : batch.size ≤ masterBs) (hmaster : masterBs ≤ c.maxBs) :
    ∃ g', runCopies (c.copies masterBs batch.wire.inputIds batch.wire.positions
        (c.prepareDecode numRealReqs batch).1.2.2) g = (true, g') ∧ c.Holds batch g' masterBs := by
  have hone := batch.oneToken
  have hbuffer : c.maxBs = c.maxNumSeqs := Nat.min_eq_left hmax
  have hroom := hbs.trans hmaster
  have hinputs : batch.wire.inputIds.length = batch.size := rfl
  have hpositions : batch.wire.positions.length = batch.size := hone.positions.trans hone.inputIds.symm
  have hstates : batch.wire.stateSlots.length = batch.size := hone.stateSlots.trans hone.inputIds.symm
  have hhisparse : batch.wire.hisparseSlots.length = batch.size := hone.hisparseSlots.trans hone.inputIds.symm
  generalize hctx : (c.prepareDecode numRealReqs batch).1.2.2 = ctx
  -- the fields of the context
  have hslots : ctx.slotMapping = batch.wire.decodeSlotMapping batch.isDummy c.blockSize := by rw [← hctx]; rfl
  have hlens : ctx.contextLens = batch.wire.positions.map (· + 1) ++ List.replicate (c.maxNumSeqs - batch.size) 0 := by
    rw [← hctx, ← contextLens_eq hsize]
    rfl
  have hhisparseSlots : ctx.hisparseSlots =
      if c.enableHisparse then some (batch.wire.hisparseSlots.map (clampSlot c.maxNumSeqs)) else none := by
    rw [← hctx, ← rawHisparseSlots_eq (c := c) batch]
    rfl
  have hgdn : ctx.gdnStateSlots = c.dummyGdnSlot.map fun dummySlot =>
    batch.wire.stateSlots.map (clampSlot dummySlot) := by
    rw [← hctx]
    rfl
  have hdsv4 : ctx.dsv4StateSlots =
      if c.isDsv4 then some (batch.wire.stateSlots.map (clampSlot c.maxNumSeqs)) else none := by
    rw [← hctx]
    rfl
  have hcompressed : ctx.compressedBlockTables = fun ratio => if c.isDsv4 ∧ 0 < c.maxCompressedBlocks ratio then
      (batch.wire.compressedBlockTables ratio).map fun perSeq => c.compressedRows ratio perSeq batch.wire.stateSlots
      else none := by
    rw [← hctx]
    rfl
  have hmapping : c.enableHisparse = true → c.planHasGqa = true → 0 < c.tokensPerSeq →
    ctx.hisparseSlotMapping.isSome := by
    intro henable hgqa htokens
    rw [← hctx]
    simp [prepareDecode, henable, hgqa, buildHotSlotMapping, Nat.ne_of_gt htokens]
  have hslotsLen : ctx.slotMapping.length = batch.size := by
    rw [hslots]
    exact length_decodeSlotMapping batch c.blockSize
  have hlensLen : ctx.contextLens.length = c.maxNumSeqs := by
    rw [← hctx]
    exact length_contextLens hsize
  have hhisparseLen : ∀ slots, ctx.hisparseSlots = some slots → slots.length = batch.size := by
    intro slots hsome
    rw [hhisparseSlots] at hsome
    split at hsome
    case isTrue =>
      cases hsome
      rw [List.length_map, hhisparse]
    case isFalse => cases hsome
  have hgdnLen : ∀ slots, ctx.gdnStateSlots = some slots → slots.length = batch.size := by
    intro slots hsome
    rw [hgdn] at hsome
    obtain ⟨dummySlot, -, rfl⟩ := Option.map_eq_some_iff.1 hsome
    rw [List.length_map, hstates]
  have hdsv4Len : ∀ slots, ctx.dsv4StateSlots = some slots → slots.length = batch.size := by
    intro slots hsome
    rw [hdsv4] at hsome
    split at hsome
    case isTrue =>
      cases hsome
      rw [List.length_map, hstates]
    case isFalse => cases hsome
  have hrows : ∀ ratio, c.hasCompressed ratio → ctx.compressedBlockTables ratio =
      (batch.wire.compressedBlockTables ratio).map fun perSeq =>
        c.compressedRows ratio perSeq batch.wire.stateSlots := by
    intro ratio hratio
    rw [hcompressed]
    exact if_pos hratio
  have hrowsLen : ∀ ratio, c.hasCompressed ratio → ∀ rows, ctx.compressedBlockTables ratio = some rows →
      rows.length = c.maxBs + 1 := by
    intro ratio hratio rows hsome
    rw [hrows ratio hratio] at hsome
    obtain ⟨perSeq, -, rfl⟩ := Option.map_eq_some_iff.1 hsome
    rw [length_compressedRows, hbuffer]
  -- the copies, one after another
  obtain ⟨slots, hcopySlots, hsliceSlots⟩ := copyHisparseSlots_eq (g := { g with
    inputIds := g.inputIds.setFront batch.wire.inputIds
    positions := g.positions.setFront batch.wire.positions
    slotMapping := (Buffer.full _ (-1)).setFront ctx.slotMapping }) hhisparseLen hbs hmaster
  have hsliceReal : ctx.hisparseSlotMapping.isSome → slots.slice masterBs =
      batch.wire.hisparseSlots.map (clampSlot c.maxNumSeqs) ++
        List.replicate (masterBs - batch.size) (c.maxNumSeqs : ℤ) := by
    intro hsome
    have henable : c.enableHisparse = true := by
      by_contra henable
      rw [← hctx] at hsome
      simp [prepareDecode, henable] at hsome
    rw [hsliceSlots, hhisparseSlots, if_pos henable, Option.getD_some]
  obtain ⟨mapping, hcopyMapping, hsliceMapping⟩ := copyHisparseSlotMapping_eq (g := { g with
    inputIds := g.inputIds.setFront batch.wire.inputIds
    positions := g.positions.setFront batch.wire.positions
    slotMapping := (Buffer.full _ (-1)).setFront ctx.slotMapping
    hisparseSlots := slots
    numRealReqs := batch.size }) hsliceReal hhisparse
    (hpositions ▸ Buffer.slice_setFront_length g.positions (hpositions.trans_le hroom)) rfl hbs hmaster
  obtain ⟨tables, hcopyTables, hsliceTables⟩ := copyBlockTables_eq numRealReqs hpos htables hbs hmaster
  rw [hctx] at hcopyTables
  have hsliceLens : ((Buffer.full c.maxBs 0).setFront ctx.contextLens).slice masterBs =
      batch.wire.positions.map (· + 1) ++ List.replicate (masterBs - batch.size) 0 := by
    have hall : ctx.contextLens.length ≤ c.maxBs := by rw [hlensLen, hbuffer]
    have htake : (batch.wire.positions.map (· + 1)).take masterBs = batch.wire.positions.map (· + 1) :=
      List.take_of_length_le (by rw [List.length_map, hpositions]; exact hbs)
    rw [Buffer.slice, Buffer.cells_full_setFront _ hall, hlensLen, hbuffer, Nat.sub_self, List.replicate_zero,
      List.append_nil, hlens, List.take_append, htake, List.length_map, hpositions, List.take_replicate,
      Nat.min_eq_left (by omega)]
  obtain ⟨lens, hcopyLens, hsliceLens⟩ := padContextLens_eq (g := { g with
    inputIds := g.inputIds.setFront batch.wire.inputIds
    positions := g.positions.setFront batch.wire.positions
    slotMapping := (Buffer.full _ (-1)).setFront ctx.slotMapping
    hisparseSlots := slots
    numRealReqs := batch.size
    hisparseSlotMapping := mapping
    contextLens := (Buffer.full _ 0).setFront ctx.contextLens
    blockTables := tables }) (by rw [List.length_map, hpositions]) hbs hmaster hsliceLens
  obtain ⟨gdn, hcopyGdn, hsliceGdn⟩ := copyGdnStateSlots_eq (g := { g with
    inputIds := g.inputIds.setFront batch.wire.inputIds
    positions := g.positions.setFront batch.wire.positions
    slotMapping := (Buffer.full _ (-1)).setFront ctx.slotMapping
    hisparseSlots := slots
    numRealReqs := batch.size
    hisparseSlotMapping := mapping
    contextLens := lens
    blockTables := tables }) hgdnLen (fun dummySlot hd => by rw [hgdn, hd]; rfl) hbs hmaster
  obtain ⟨dsv4, hcopyDsv4, hsliceDsv4⟩ := copyDsv4StateSlots_eq (g := { g with
    inputIds := g.inputIds.setFront batch.wire.inputIds
    positions := g.positions.setFront batch.wire.positions
    slotMapping := (Buffer.full _ (-1)).setFront ctx.slotMapping
    hisparseSlots := slots
    numRealReqs := batch.size
    hisparseSlotMapping := mapping
    contextLens := lens
    blockTables := tables
    gdnStateSlots := gdn }) hdsv4Len (fun hd => by rw [hdsv4, if_pos hd]; rfl) hbs hmaster
  refine ⟨{
    inputIds := g.inputIds.setFront batch.wire.inputIds
    positions := g.positions.setFront batch.wire.positions
    slotMapping := (Buffer.full _ (-1)).setFront ctx.slotMapping
    contextLens := lens
    blockTables := tables
    hisparseSlots := slots
    hisparseSlotMapping := mapping
    gdnStateSlots := gdn
    dsv4StateSlots := dsv4
    compressedBlockTables := c.copyCompressed ctx.compressedBlockTables g.compressedBlockTables
    numRealReqs := batch.size }, ?_, ?_⟩
  · have hcontext : ctx.contextLens.length ≤ c.maxBs := by rw [hlensLen, hbuffer]
    simp only [copies, runCopies, hinputs, Buffer.copyFront_length _ hinputs hroom,
      Buffer.copyFront_length _ hpositions hroom, Buffer.copyFront_length _ hslotsLen hroom,
      Buffer.copyFront_length _ rfl hcontext, Option.map_some, hcopySlots, hcopyMapping, hcopyTables,
      hcopyLens, hcopyGdn, hcopyDsv4]
  · exact
      { inputIds := hinputs ▸ Buffer.slice_setFront_length g.inputIds (hinputs.trans_le hroom)
        positions := hpositions ▸ Buffer.slice_setFront_length g.positions (hpositions.trans_le hroom)
        slotMapping := by
          show ((Buffer.full c.maxBs (-1)).setFront ctx.slotMapping).slice masterBs = _
          rw [Buffer.slice_full_setFront _ (hslotsLen.trans_le hbs) hmaster, hslotsLen, hslots]
        contextLens := hsliceLens
        blockTables := hsliceTables
        hisparseSlots := by
          show slots.slice masterBs = _
          rw [hsliceSlots, hhisparseSlots]
          by_cases henable : c.enableHisparse <;> simp [henable]
        hisparseSlotMapping := fun henable hgqa htokens => hsliceMapping (hmapping henable hgqa htokens) htokens
        gdnStateSlots := fun dummySlot hd => by
          show gdn.slice masterBs = _
          rw [hsliceGdn dummySlot hd, hgdn, hd, Option.map_some, Option.getD_some]
        dsv4StateSlots := fun hd => by
          show dsv4.slice masterBs = _
          rw [hsliceDsv4 hd, hdsv4, if_pos hd, Option.getD_some]
        compressedFree := fun ratio hratio s hs hfree => by
          show (c.copyCompressed ctx.compressedBlockTables g.compressedBlockTables ratio).cells[s]? = _
          rw [copyCompressed_eq hratio (hrowsLen ratio hratio) (by omega), hrows ratio hratio]
          cases batch.wire.compressedBlockTables ratio with
          | none => rfl
          | some perSeq => exact compressedRows_free perSeq hs hfree
        compressedSlot := fun ratio hratio s hs i hslot honly => by
          show (c.copyCompressed ctx.compressedBlockTables g.compressedBlockTables ratio).cells[s]? = _
          rw [copyCompressed_eq hratio (hrowsLen ratio hratio) (by omega), hrows ratio hratio]
          cases hperSeq : batch.wire.compressedBlockTables ratio with
          | none => simp [DecodeBatch.pages, hperSeq, dummyRow]
          | some perSeq =>
            have hi : i < perSeq.length := by
              obtain ⟨hlt, -⟩ := List.getElem?_eq_some_iff.1 hslot
              rwa [hone.compressed ratio perSeq hperSeq, ← hone.stateSlots]
            have hpages : perSeq[i]? = some (batch.pages ratio i) := by
              simp [DecodeBatch.pages, hperSeq, List.getD_eq_getElem?_getD, List.getElem?_eq_getElem hi]
            exact compressedRows_slot hs hslot hpages honly }

/-- A replay whose copies end has buffers as wide as the scheduler's batches. -/
theorem le_of_runCopies {inputIds : List ℤ} {positions : List ℕ} {ctx : DecodeContext} {g : DecodeBuffers c}
    (hlens : ctx.contextLens.length = c.maxNumSeqs)
    (h : (runCopies (c.copies masterBs inputIds positions ctx) g).1 = true) : c.maxNumSeqs ≤ 512 := by
  have hmem :
    (fun g : DecodeBuffers c => ((Buffer.full _ 0).copyFront ctx.contextLens.length ctx.contextLens).map fun b =>
      { g with contextLens := b }) ∈ c.copies masterBs inputIds positions ctx := by simp [copies]
  obtain ⟨g', hsome⟩ := runCopies_isSome h _ hmem
  rw [Option.isSome_map] at hsome
  have hfits := Buffer.copyFront_isSome hsome
  rw [hlens] at hfits
  unfold maxBs at hfits
  omega

theorem Holds.tables_le {g : DecodeBuffers c} (h : c.Holds batch g masterBs) :
    ∀ table ∈ batch.wire.blockTables, table.length ≤ c.maxNumBlocks := by
  intro table ht
  have hrow : table ++ List.replicate (c.maxNumBlocks - table.length) 0 ∈
    (g.blockTables.slice masterBs).map Buffer.cells := by
    rw [h.blockTables]
    exact List.mem_append_left _ (List.mem_map_of_mem ht)
  obtain ⟨b, -, hb⟩ := List.mem_map.1 hrow
  have hlen := b.length_cells
  rw [hb, List.length_append] at hlen
  exact Nat.le.intro hlen

/-- A batch that is not too large for the graphs goes through `run`. -/
theorem runModel_eq {g : DecodeBuffers c} (hlarge : batch.size ≤ 512) :
    ∃ g₀ : DecodeBuffers c, c.runModel g batch =
    ((c.run g₀ batch.wire.inputIds batch.wire.positions (c.prepareDecode g.numRealReqs batch).1.2.2).1.map .replay,
      (c.run g₀ batch.wire.inputIds batch.wire.positions (c.prepareDecode g.numRealReqs batch).1.2.2).2) :=
  ⟨_, if_neg (Nat.not_lt.2 hlarge)⟩

end Batch

end DecodeConfig

/-- **Graph decode**: whatever the earlier batches left in the buffers, a batch is decoded eagerly or by a graph that
finds it there exactly when it is beyond the graphs, or the buffers are as wide as the scheduler's batches, some
captured size is large enough and the block tables fit. -/
theorem graph_decodes {c : DecodeConfig} (earlier : List DecodeBatch) (g : DecodeBuffers c) {batch : DecodeBatch}
    (hpos : 0 < batch.size) (hsize : batch.size ≤ c.maxNumSeqs) :
    c.GraphDecodes (c.decodes earlier g) batch ↔ c.Captured batch := by
  generalize c.decodes earlier g = g
  have hmaxBs : 1 ≤ c.maxBs := by
    unfold DecodeConfig.maxBs
    omega
  constructor
  -- the replay ran, so a captured size was found and every copy fitted
  · rintro ⟨path, g', hrun, hreplay⟩
    by_cases hlarge : 512 < batch.size
    · exact .inl hlarge
    · obtain ⟨g₀, heq⟩ := DecodeConfig.runModel_eq (g := g) (Nat.not_lt.1 hlarge)
      rw [heq] at hrun
      unfold DecodeConfig.run at hrun
      split at hrun
      case h_1 => cases hrun
      case h_2 masterBs hfind =>
        split at hrun
        case h_2 => cases hrun
        case h_1 g₁ hcopies =>
          cases hrun
          obtain ⟨hle, hholds⟩ := hreplay masterBs rfl
          have hmax : c.maxNumSeqs ≤ 512 := by
            refine DecodeConfig.le_of_runCopies ?_ (congrArg Prod.fst hcopies)
            exact DecodeConfig.length_contextLens hsize
          have hcaptured := (DecodeConfig.exists_captured hmaxBs).1 ⟨masterBs, List.mem_of_find?_eq_some hfind, hle⟩
          rw [DecodeConfig.maxBs, Nat.min_eq_left hmax] at hcaptured
          exact .inr ⟨hmax, hcaptured, hholds.tables_le⟩
  · rintro (hlarge | ⟨hmax, hcaptured, htables⟩)
    · exact ⟨.eager, _, if_pos hlarge, fun masterBs h => by cases h⟩
    · obtain ⟨g₀, heq⟩ := DecodeConfig.runModel_eq (g := g) (hsize.trans hmax)
      have hbuffer : c.maxBs = c.maxNumSeqs := Nat.min_eq_left hmax
      rw [← hbuffer] at hcaptured
      obtain ⟨x, hx, hlex⟩ := (DecodeConfig.exists_captured hmaxBs).2 hcaptured
      have hsome : ((DecodeConfig.makeBsList c.maxBs).find? fun x =>
        decide (batch.wire.inputIds.length ≤ x)).isSome :=
        List.find?_isSome.2 ⟨x, hx, decide_eq_true hlex⟩
      obtain ⟨masterBs, hfind⟩ := Option.isSome_iff_exists.1 hsome
      have hle : batch.size ≤ masterBs := by
        have hfits := List.find?_some hfind
        exact of_decide_eq_true hfits
      have hmaster := DecodeConfig.le_of_mem_makeBsList (List.mem_of_find?_eq_some hfind)
      obtain ⟨g', hcopies, hholds⟩ := DecodeConfig.runCopies_holds g.numRealReqs g₀ hmax hpos
        hsize htables hle hmaster
      refine ⟨.replay masterBs, g', ?_, fun m hm => ?_⟩
      · rw [heq, DecodeConfig.run, hfind]
        dsimp only
        rw [hcopies]
        rfl
      · cases hm
        exact ⟨hle, hholds⟩

/-- A plan of paged attention for `maxNumSeqs` sequences. -/
def pagedDecode (maxNumSeqs : ℕ) : DecodeConfig where
  maxNumSeqs := maxNumSeqs
  maxModelLen := 1024
  blockSize := 256
  isMla := false
  isDsv4 := false
  gdnNumSlots := none
  compressedPoolConfig := fun _ => none
  compressedDummyPages := fun _ => none
  enableHisparse := false
  planHasGqa := true
  tokensPerSeq := 0
  useFlashinferDecode := true

/-- `n` sequences of three tokens, each with a block of its own. -/
def shortBatch (n : ℕ) : DecodeBatch :=
  .sequences ((List.range n).map fun i => { Sequence.new i [1, 2, 3] {} with activeBlockTable := [i] })

/-- Three sequences of at most four, after a batch of four: a graph of size four replays. -/
theorem graph_decodes_three :
    (pagedDecode 4).GraphDecodes ((pagedDecode 4).decodes [shortBatch 4] (pagedDecode 4).initBuffers) (shortBatch 3) :=
  (graph_decodes [shortBatch 4] (pagedDecode 4).initBuffers (by decide) (by decide)).2
    (.inr ⟨by decide, by decide, by decide⟩)

/-- Three sequences of at most three: only the sizes one and two are captured. -/
theorem not_graph_decodes : 0 < (shortBatch 3).size ∧ (shortBatch 3).size ≤ (pagedDecode 3).maxNumSeqs ∧
    ((pagedDecode 3).runModel (pagedDecode 3).initBuffers (shortBatch 3)).1 = .error .stopIteration ∧
    ¬(pagedDecode 3).GraphDecodes (pagedDecode 3).initBuffers (shortBatch 3) := by
  have hstop : ((pagedDecode 3).runModel (pagedDecode 3).initBuffers (shortBatch 3)).1 = .error .stopIteration := rfl
  refine ⟨by decide, by decide, hstop, ?_⟩
  rintro ⟨path, g', hrun, -⟩
  rw [hrun] at hstop
  cases hstop

end NanoEngine
