import NanoEngine.Disagg.Ranges

/-!
# NanoEngine.Disagg.Metadata — when the published cache layers are those that are allocated

The publisher lists the layers with one test (`published`), the allocator counts them with another (`owned`), and the
predictor slots are counted apart.  `exists_matches_iff`: the metadata of a prefill engine is right exactly when the two
tests agree on every layer and the two counts agree.
-/

namespace NanoEngine.Disagg

/-! ## The two tests of a layer -/

theorem filter_range_lt {n m : ℕ} (h : n ≤ m) (q : ℕ → Bool) :
    (List.range n).filter q = (List.range m).filter (fun i => decide (i < n) && q i) := by
  have hsplit := range'_split (Nat.zero_le n) h
  rw [Nat.sub_zero, Nat.sub_zero, ← List.range_eq_range', ← List.range_eq_range'] at hsplit
  have hin : (List.range n).filter (fun i => decide (i < n) && q i) = (List.range n).filter q := by
    apply List.filter_congr
    intro i hi
    simp [List.mem_range.1 hi]
  have hout : (List.range' n (m - n)).filter (fun i => decide (i < n) && q i) = [] := by
    rw [List.filter_eq_nil_iff]
    intro i hi
    have := (List.mem_range'_1.1 hi).1
    simp [this]
  rw [hsplit, List.filter_append, hin, hout, List.append_nil]

namespace EngineConfig

variable (c : EngineConfig)

/-- The publisher lists the layer. -/
def published (i : ℕ) : Bool :=
  if c.model.architecture.isGemma4 then
    decide (i < c.model.firstShared) && (!c.enableHisparse || decide (c.model.typeOf i = some .fullAttention))
  else !c.model.hasLinear || decide (c.model.typeOf i = some .fullAttention)

/-- The allocator counts the layer. -/
def owned (i : ℕ) : Bool :=
  if c.model.architecture.isGemma4 then
    decide (i < c.model.firstShared) &&
      (!(c.cachePlan.hisparse && c.cachePlan.gqa) || decide (c.model.typeOf i = some .fullAttention))
  else decide (c.model.typeOf i ≠ some .linearAttention)

theorem cacheLayerIndices_eq :
    c.model.cacheLayerIndices c.enableHisparse = (List.range c.model.numHiddenLayers).filter c.published := by
  unfold ModelConfig.cacheLayerIndices published
  cases hg : c.model.architecture.isGemma4 with
  | true =>
    have hle : c.model.firstShared ≤ c.model.numHiddenLayers := Nat.sub_le _ _
    have h := filter_range_lt hle
      (fun i => !c.enableHisparse || decide (c.model.typeOf i = some .fullAttention))
    cases he : c.enableHisparse <;> simp_all
  | false => cases hl : c.model.hasLinear <;> simp

theorem stageTargets_eq (r : ℕ × ℕ) : c.stageTargets r = (List.range' r.1 (r.2 - r.1)).filter c.owned := by
  unfold stageTargets owned
  cases hg : c.model.architecture.isGemma4 with
  | true => cases hp : (c.cachePlan.hisparse && c.cachePlan.gqa) <;> simp
  | false =>
    simp only [Bool.false_eq_true, if_false]
    split
    · rfl
    · rename_i hany
      symm
      rw [List.filter_eq_self]
      intro i hi
      simp only [List.any_eq_true, not_exists, not_and] at hany
      simpa using hany i hi

end EngineConfig

/-! ## The published lists -/

theorem extendLast_concat (stages : List (List ℕ)) (last extra : List ℕ) :
    extendLast (stages ++ [last]) extra = stages ++ [last ++ extra] := by
  unfold extendLast
  rw [List.dropLast_concat, List.getLastD_concat]

theorem partitionLayerIndices_eq {n : ℕ} {ranges : List (ℕ × ℕ)} (h : Covers 0 n ranges) (q : ℕ → Bool) :
    partitionLayerIndices ((List.range n).filter q) ranges =
      some (ranges.map (fun r => (List.range' r.1 (r.2 - r.1)).filter q)) := by
  unfold partitionLayerIndices
  have hall : ((List.range n).filter q).all (fun layer => (ppStageOfLayer layer ranges).isSome) = true := by
    rw [List.all_eq_true]
    intro i hi
    obtain ⟨s, r, hr, hin⟩ := h.exists_stage (Nat.zero_le i) (List.mem_range.1 (List.mem_of_mem_filter hi))
    rw [(h.stage_iff hr i).2 hin]
    rfl
  rw [if_pos hall]
  congr 1
  apply List.ext_getElem?
  intro s
  rw [List.getElem?_map, List.getElem?_map]
  cases hr : ranges[s]? with
  | none =>
    have hlen := List.getElem?_eq_none_iff.1 hr
    rw [List.getElem?_eq_none (by simpa using hlen)]
    rfl
  | some r =>
    have hlen : s < ranges.length := (List.getElem?_eq_some_iff.1 hr).1
    have hfilter := h.filter_stage hr q
    rw [Nat.sub_zero, ← List.range_eq_range'] at hfilter
    rw [List.getElem?_range hlen, Option.map_some, Option.map_some, hfilter]

namespace EngineConfig

variable {c : EngineConfig} {ranges : List (ℕ × ℕ)}

/-- Publisher and stages split the layers alike. -/
theorem ppLayerRanges_eq (hstart : c.stageRanges = some ranges) : c.ppLayerRanges = some ranges := by
  unfold stageRanges at hstart
  unfold ppLayerRanges
  cases hg : c.model.architecture.isGemma4 with
  | false => simpa [hg] using hstart
  | true =>
    by_cases hpp : 1 < c.pp
    · simpa [hg, hpp] using hstart
    · -- one stage: the publisher does not ask for the shared suffix
      have hone : max 1 c.pp = 1 := by omega
      rw [hg, if_pos rfl] at hstart
      obtain ⟨start, -, hpart⟩ := Option.bind_eq_some_iff.1 hstart
      rw [if_neg (by simp [hpp])]
      unfold ppLayerPartition at hpart ⊢
      rw [hone, if_pos rfl] at hpart ⊢
      exact hpart

theorem stageRanges_covers (hpp : 1 ≤ c.pp) (hle : c.pp ≤ c.model.numHiddenLayers)
    (hstart : c.stageRanges = some ranges) :
    Covers 0 c.model.numHiddenLayers ranges ∧ ranges.length = c.pp := by
  unfold stageRanges at hstart
  split at hstart
  · obtain ⟨start, -, hpart⟩ := Option.bind_eq_some_iff.1 hstart
    exact ppLayerPartition_covers hpp hle hpart
  · exact ppLayerPartition_covers hpp hle hstart

/-- The target layers of a range that the publisher lists. -/
def publishedIn (c : EngineConfig) (r : ℕ × ℕ) : List ℕ := (List.range' r.1 (r.2 - r.1)).filter c.published

/-- The slots of the predictor layers. -/
def publishedPredictors (c : EngineConfig) : List ℕ :=
  List.range' ((List.range c.model.numHiddenLayers).filter c.published).length c.mtpNumKvLayers

theorem metadata_eq (hpp : 1 ≤ c.pp) (hle : c.pp ≤ c.model.numHiddenLayers) (hstart : c.stageRanges = some ranges) :
    c.metadata = some
      { pp := c.pp, numHiddenLayers := c.model.numHiddenLayers, layerRanges := ranges,
        cacheLayers := extendLast (ranges.map c.publishedIn) c.publishedPredictors,
        mtpNumKvLayers := c.mtpNumKvLayers } := by
  have hranges := ppLayerRanges_eq hstart
  obtain ⟨hcov, -⟩ := stageRanges_covers hpp hle hstart
  have hpart := partitionLayerIndices_eq hcov c.published
  unfold metadata ppCacheLayerIndices
  rw [hranges, cacheLayerIndices_eq]
  simp only [Option.bind_eq_bind, Option.bind_some, hpart]
  rfl

end EngineConfig

/-! ## What the metadata should be -/

/-- The cache the metadata gives a stage: on the last one the last `mtp_num_kv_layers` entries are predictor slots. -/
def PpMetadata.stageLayers (p : PpMetadata) (stage : ℕ) : List CacheLayer :=
  let layers := p.cacheLayers.getD stage []
  let predictors := if stage + 1 = p.pp then p.mtpNumKvLayers else 0
  (layers.take (layers.length - predictors)).map .target ++
    (layers.drop (layers.length - predictors)).zipIdx.map (fun e => .predictor e.2)

/-- The metadata is what the stages allocate, a decode engine of the model accepts it, and every layer of the decode
engine is read once, from the rank and the slot that hold it. -/
structure PpMetadata.Matches (p : PpMetadata) (c : EngineConfig) (ranges : List (ℕ × ℕ)) : Prop where
  stages : ∀ stage < c.pp, p.stageLayers stage = c.stageCache ranges stage
  valid : p.valid c.decodeCache.length = true
  reads_length : ∀ cell, (cacheReads cell (p.readLayers c.decodeCache.length)).length = c.decodeCache.length
  reads : ∀ cell, ∀ i < c.decodeCache.length, ∃ stage < c.pp, ∃ slot,
    (cacheReads cell (p.readLayers c.decodeCache.length))[i]? = some (some
      { localLayer := i, rank := cell.ppGlobalRank stage, remoteLayer := slot,
        remoteLayers := (c.stageCache ranges stage).length }) ∧
    (c.stageCache ranges stage)[slot]? = c.decodeCache[i]?

namespace EngineConfig

variable (c : EngineConfig)

/-- Every layer type is one that publisher and allocator treat alike. -/
def TypesAgree : Prop :=
  if c.model.architecture.isGemma4 then
    c.enableHisparse = true → (c.cachePlan.hisparse && c.cachePlan.gqa) = true ∨
      ∀ i < c.model.firstShared, c.model.typeOf i = some .fullAttention
  else c.model.hasLinear = true → ∀ t ∈ c.model.layerTypes.getD [], t = .linearAttention ∨ t = .fullAttention

/-- Both sides count the predictor layers, and by the same field, or neither does. -/
def PredictorsAgree : Prop :=
  c.numSpeculativeTokens = 0 ∨
    (c.model.architecture.countsPredictors = true ∧ c.cachePlan.mla = true ∧
      c.model.mtpNumHiddenLayers ≤ max 1 c.model.numNextnPredictLayers) ∨
    (c.model.architecture.countsPredictors = false ∧ c.cachePlan.mla = false)

instance : Decidable c.TypesAgree := by
  unfold TypesAgree
  infer_instance

instance : Decidable c.PredictorsAgree := by
  unfold PredictorsAgree
  infer_instance

variable {c}

theorem enableHisparse_of_cachePlan (h : c.cachePlan.hisparse = true) : c.enableHisparse = true := by
  unfold cachePlan at h
  repeat' split at h
  all_goals simp_all

theorem typeOf_eq_some {i : ℕ} (hlinear : c.model.hasLinear = true) (hi : i < c.model.numHiddenLayers) :
    ∃ t ∈ c.model.layerTypes.getD [], c.model.typeOf i = some t := by
  cases htypes : c.model.layerTypes with
  | none => simp [ModelConfig.hasLinear, htypes] at hlinear
  | some types =>
    have hlen : types.length = c.model.numHiddenLayers := c.model.length_layerTypes types (by simp [htypes])
    have hi' : i < types.length := by omega
    exact ⟨types[i], by simp, by simp [ModelConfig.typeOf, htypes, hi']⟩

theorem lt_of_typeOf_eq_some {i : ℕ} {t : LayerType} (h : c.model.typeOf i = some t) :
    t ∈ c.model.layerTypes.getD [] ∧ i < c.model.numHiddenLayers := by
  refine ⟨List.mem_of_getElem? h, ?_⟩
  obtain ⟨hi, -⟩ := List.getElem?_eq_some_iff.1 h
  cases htypes : c.model.layerTypes with
  | none => simp [htypes] at hi
  | some types =>
    have hlen : types.length = c.model.numHiddenLayers := c.model.length_layerTypes types (by simp [htypes])
    simpa [htypes, hlen] using hi

theorem published_eq_owned_iff : (∀ i < c.model.numHiddenLayers, c.published i = c.owned i) ↔ c.TypesAgree := by
  unfold published owned TypesAgree
  -- one rule for gemma4, one for every other architecture, as `TypesAgree` has them
  cases hg : c.model.architecture.isGemma4 with
  | true =>
    simp only [if_true]
    have hle : c.model.firstShared ≤ c.model.numHiddenLayers := Nat.sub_le _ _
    cases hplan : (c.cachePlan.hisparse && c.cachePlan.gqa) with
    | true =>
      have he := enableHisparse_of_cachePlan (Bool.and_eq_true_iff.1 hplan).1
      simp [he]
    | false =>
      cases he : c.enableHisparse with
      | false => simp
      | true =>
        simp only [Bool.not_true, Bool.false_or, Bool.not_false, Bool.true_or, Bool.and_true,
          Bool.false_eq_true, false_or,
          forall_const]
        constructor
        · intro h i hi
          simpa [hi] using h i (hi.trans_le hle)
        · intro h i _
          by_cases hi : i < c.model.firstShared
          · simp [hi, h i hi]
          · simp [hi]
  | false =>
    simp only [Bool.false_eq_true, if_false]
    cases hl : c.model.hasLinear with
    | false =>
      simp only [Bool.not_false, Bool.true_or, Bool.false_eq_true, false_imp_iff, iff_true]
      intro i _
      symm
      rw [decide_eq_true_eq]
      intro hi
      have hmem := (lt_of_typeOf_eq_some hi).1
      simp [ModelConfig.hasLinear, hmem] at hl
    | true =>
      simp only [Bool.not_true, Bool.false_or, forall_const]
      constructor
      · intro h t ht
        obtain ⟨i, hi⟩ := List.mem_iff_getElem?.1 ht
        have hi' : c.model.typeOf i = some t := hi
        have := h i (lt_of_typeOf_eq_some hi').2
        rw [hi'] at this
        by_cases hlin : t = .linearAttention
        · exact .inl hlin
        · exact .inr (by simpa [hlin] using this)
      · intro h i hi
        obtain ⟨t, ht, htype⟩ := typeOf_eq_some hl hi
        rw [htype]
        rcases h t ht with rfl | rfl <;> decide

/-- The predictor layers the allocator counts on the last stage. -/
def ownedPredictors (c : EngineConfig) : ℕ :=
  if 0 < c.numSpeculativeTokens ∧ c.cachePlan.mla = true then max 1 c.numMtpLayers else 0

theorem numMtpLayers_of_countsPredictors (h : c.model.architecture.countsPredictors = true) :
    c.numMtpLayers = c.model.numNextnPredictLayers := by
  unfold numMtpLayers
  rw [if_neg]
  rintro harch
  simp [harch, Architecture.countsPredictors] at h

theorem mtpNumKvLayers_eq_iff : c.mtpNumKvLayers = c.ownedPredictors ↔ c.PredictorsAgree := by
  unfold mtpNumKvLayers ownedPredictors PredictorsAgree
  by_cases hspec : c.numSpeculativeTokens = 0
  · simp [hspec]
  · have hpos : 0 < c.numSpeculativeTokens := Nat.pos_of_ne_zero hspec
    cases hcount : c.model.architecture.countsPredictors <;> cases hmla : c.cachePlan.mla
    · simp [hspec]
    · simp [hspec, hpos]
      omega
    · simp [hspec]
    · rw [numMtpLayers_of_countsPredictors hcount]
      simp [hspec, hpos]
      omega

end EngineConfig

/-! ## The stages -/

/-- The parts of a cache are determined by it. -/
theorem targets_predictors_inj {ts ts' : List ℕ} {n n' : ℕ} :
    ts.map CacheLayer.target ++ (List.range n).map CacheLayer.predictor =
      ts'.map CacheLayer.target ++ (List.range n').map CacheLayer.predictor ↔ ts = ts' ∧ n = n' := by
  constructor
  · intro h
    let toTarget : CacheLayer → Option ℕ := fun l => match l with
      | .target i => some i
      | .predictor _ => none
    have hread (us : List ℕ) (k : ℕ) :
        (us.map CacheLayer.target ++ (List.range k).map CacheLayer.predictor).filterMap toTarget = us := by
      rw [List.filterMap_append, List.filterMap_map, List.filterMap_map]
      have h1 : us.filterMap (toTarget ∘ CacheLayer.target) = us := List.filterMap_some
      have h2 : (List.range k).filterMap (toTarget ∘ CacheLayer.predictor) = [] := by
        rw [List.filterMap_eq_nil_iff]
        intro _ _
        rfl
      rw [h1, h2, List.append_nil]
    have hts : ts = ts' := by rw [← hread ts n, h, hread ts' n']
    subst hts
    refine ⟨rfl, ?_⟩
    simpa using congrArg List.length h
  · rintro ⟨rfl, rfl⟩
    rfl

theorem filter_eq_filter_iff {α : Type} {q q' : α → Bool} {l : List α} :
    l.filter q = l.filter q' ↔ ∀ i ∈ l, q i = q' i := by
  refine ⟨fun h i hi => ?_, List.filter_congr⟩
  rw [Bool.eq_iff_iff]
  constructor
  · intro hq
    exact (List.mem_filter.1 (h ▸ List.mem_filter.2 ⟨hi, hq⟩)).2
  · intro hq
    exact (List.mem_filter.1 (h.symm ▸ List.mem_filter.2 ⟨hi, hq⟩)).2

theorem exists_concat_of_length_pos {α : Type} {l : List α} (h : 0 < l.length) :
    ∃ init last, l = init ++ [last] := by
  have hne : l ≠ [] := List.length_pos_iff.1 h
  exact ⟨l.dropLast, l.getLast hne, (List.dropLast_append_getLast hne).symm⟩

/-- The lists of a prefill engine that starts. -/
structure Started (c : EngineConfig) (ranges : List (ℕ × ℕ)) (p : PpMetadata) : Prop where
  pos : 1 ≤ c.pp
  covers : Covers 0 c.model.numHiddenLayers ranges
  length : ranges.length = c.pp
  metadata : p = { pp := c.pp, numHiddenLayers := c.model.numHiddenLayers, layerRanges := ranges,
                   cacheLayers := extendLast (ranges.map c.publishedIn) c.publishedPredictors,
                   mtpNumKvLayers := c.mtpNumKvLayers }

namespace Started

variable {c : EngineConfig} {ranges : List (ℕ × ℕ)} {p : PpMetadata}

theorem getD_cacheLayers (h : Started c ranges p) {s : ℕ} {r : ℕ × ℕ} (hr : ranges[s]? = some r) :
    p.cacheLayers.getD s [] = c.publishedIn r ++ if s + 1 = c.pp then c.publishedPredictors else [] := by
  obtain ⟨init, last, rfl⟩ := exists_concat_of_length_pos (h.length ▸ h.pos : 0 < ranges.length)
  have hlen : init.length + 1 = c.pp := by simpa using h.length
  rw [h.metadata, List.map_append, List.map_singleton, extendLast_concat]
  rcases Nat.lt_or_ge s init.length with hs | hs
  · rw [List.getElem?_append_left hs] at hr
    rw [if_neg (by omega), List.append_nil, List.getD_eq_getElem?_getD, List.getElem?_append_left (by simpa using hs),
      List.getElem?_map, hr]
    rfl
  · have hs' : s = init.length := by
      have := (List.getElem?_eq_some_iff.1 hr).1
      rw [List.length_append, List.length_singleton] at this
      omega
    subst hs'
    obtain rfl : last = r := by simpa using hr
    rw [if_pos hlen, List.getD_eq_getElem?_getD, List.getElem?_append_right (by simp)]
    simp

theorem flatten_cacheLayers (h : Started c ranges p) :
    p.cacheLayers.flatten = (List.range c.model.numHiddenLayers).filter c.published ++ c.publishedPredictors := by
  have hflat : (ranges.map c.publishedIn).flatten = (List.range c.model.numHiddenLayers).filter c.published := by
    have hrange := h.covers.flatMap_range'
    rw [Nat.sub_zero, ← List.range_eq_range'] at hrange
    rw [← hrange, List.filter_flatMap, ← List.flatMap_def]
    rfl
  obtain ⟨init, last, rfl⟩ := exists_concat_of_length_pos (h.length ▸ h.pos : 0 < ranges.length)
  rw [← hflat, h.metadata, List.map_append, List.map_singleton, extendLast_concat]
  simp

theorem length_cacheLayers (h : Started c ranges p) : p.cacheLayers.length = c.pp := by
  obtain ⟨init, last, rfl⟩ := exists_concat_of_length_pos (h.length ▸ h.pos : 0 < ranges.length)
  have hlen : init.length + 1 = c.pp := by simpa using h.length
  rw [h.metadata, List.map_append, List.map_singleton, extendLast_concat]
  simpa using hlen

theorem stageLayers_eq (h : Started c ranges p) {s : ℕ} {r : ℕ × ℕ} (hr : ranges[s]? = some r) :
    p.stageLayers s = (c.publishedIn r).map .target ++
      (List.range (if s + 1 = c.pp then c.mtpNumKvLayers else 0)).map .predictor := by
  have hlayers := h.getD_cacheLayers hr
  have hpp : p.pp = c.pp := by rw [h.metadata]
  have hmtp : p.mtpNumKvLayers = c.mtpNumKvLayers := by rw [h.metadata]
  have hpred (xs : List ℕ) : xs.zipIdx.map (fun e => CacheLayer.predictor e.2) =
    (List.range xs.length).map .predictor := by
    have := congrArg (List.map CacheLayer.predictor) (List.zipIdx_map_snd 0 xs)
    rwa [List.map_map, ← List.range_eq_range'] at this
  unfold PpMetadata.stageLayers
  simp only [hlayers, hpp, hmtp, hpred]
  by_cases hlast : s + 1 = c.pp
  · have hlen : (c.publishedIn r ++ c.publishedPredictors).length - c.mtpNumKvLayers = (c.publishedIn r).length := by
      simp [EngineConfig.publishedPredictors]
    simp only [if_pos hlast, hlen, List.take_left, List.drop_left]
    simp [EngineConfig.publishedPredictors]
  · simp [if_neg hlast]

theorem stageCache_eq (c : EngineConfig) {s : ℕ} {r : ℕ × ℕ} (hr : ranges[s]? = some r) :
    c.stageCache ranges s = ((List.range' r.1 (r.2 - r.1)).filter c.owned).map .target ++
      (List.range (if s + 1 = c.pp then c.ownedPredictors else 0)).map .predictor := by
  unfold EngineConfig.stageCache EngineConfig.stagePredictors EngineConfig.ownedPredictors
  rw [List.getD_eq_getElem?_getD, hr, Option.getD_some, c.stageTargets_eq]
  by_cases hlast : s + 1 = c.pp <;> simp [hlast]

/-- The stages match exactly when the tests and the counts agree. -/
theorem stages_iff (h : Started c ranges p) :
    (∀ stage < c.pp, p.stageLayers stage = c.stageCache ranges stage) ↔ c.TypesAgree ∧ c.PredictorsAgree := by
  rw [← EngineConfig.published_eq_owned_iff, ← EngineConfig.mtpNumKvLayers_eq_iff]
  have hstage {s : ℕ} {r : ℕ × ℕ} (hr : ranges[s]? = some r) :
      p.stageLayers s = c.stageCache ranges s ↔ (∀ i ∈ List.range' r.1 (r.2 - r.1), c.published i = c.owned i) ∧
        (if s + 1 = c.pp then c.mtpNumKvLayers else 0) = if s + 1 = c.pp then c.ownedPredictors else 0 := by
    rw [h.stageLayers_eq hr, stageCache_eq c hr, targets_predictors_inj, EngineConfig.publishedIn, filter_eq_filter_iff]
  constructor
  · intro hall
    constructor
    · intro i hi
      obtain ⟨s, r, hr, hin⟩ := h.covers.exists_stage (Nat.zero_le i) hi
      have hs : s < c.pp := h.length ▸ (List.getElem?_eq_some_iff.1 hr).1
      exact ((hstage hr).1 (hall s hs)).1 i (List.mem_range'_1.2 (by omega))
    · have hs : c.pp - 1 < ranges.length := by
        have := h.pos
        have := h.length
        omega
      have hr := List.getElem?_eq_getElem hs
      have hlast : c.pp - 1 + 1 = c.pp := Nat.sub_add_cancel h.pos
      have := ((hstage hr).1 (hall _ (h.length ▸ hs))).2
      rwa [if_pos hlast, if_pos hlast] at this
  · rintro ⟨htypes, hpred⟩ s hs
    have hr := List.getElem?_eq_getElem (h.length ▸ hs : s < ranges.length)
    refine (hstage hr).2 ⟨fun i hi => htypes i ?_, by rw [hpred]⟩
    have hb := (h.covers.bounds (List.mem_of_getElem? hr)).2.2
    have := List.mem_range'_1.1 hi
    omega

/-! ## The checks -/

theorem rangesValid (h : Started c ranges p) : p.rangesValid c.model.numHiddenLayers = true := by
  have hranges : p.layerRanges = ranges := by rw [h.metadata]
  have hpp : p.pp = c.pp := by rw [h.metadata]
  have hcov := h.covers
  have hzip := hcov.zip_tail
  have hlen := h.length
  obtain ⟨init, last, rfl⟩ := exists_concat_of_length_pos (h.length ▸ h.pos : 0 < ranges.length)
  obtain ⟨m, -, -, hlt, hend⟩ := hcov.of_append
  obtain hend : last.2 = c.model.numHiddenLayers := hend
  have hhead : ((init ++ [last]).headD (0, 0)).1 = 0 := by
    cases init with
    | nil => exact hcov.1
    | cons r rest => exact hcov.1
  unfold PpMetadata.rangesValid
  rw [hranges, hpp, hlen, hzip, hhead, List.getLastD_concat, hend]
  simpa using hlt.trans_eq hend

theorem countsPredictors_of_mtp (hmtp : 0 < c.mtpNumKvLayers) :
    c.numSpeculativeTokens ≠ 0 ∧ c.model.architecture.countsPredictors = true := by
  unfold EngineConfig.mtpNumKvLayers at hmtp
  split at hmtp
  · omega
  · split at hmtp
    · exact ⟨by assumption, by assumption⟩
    · omega

/-- With predictor slots every layer is listed. -/
theorem published_of_mtp (hpred : c.PredictorsAgree) (hmtp : 0 < c.mtpNumKvLayers) (i : ℕ) :
    c.published i = true := by
  obtain ⟨hspec, hcount⟩ := countsPredictors_of_mtp hmtp
  have hmla : c.cachePlan.mla = true := by
    rcases hpred with h0 | ⟨-, hmla, -⟩ | ⟨hno, -⟩
    · exact absurd h0 hspec
    · exact hmla
    · rw [hcount] at hno
      cases hno
  have hgemma : c.model.architecture.isGemma4 = false := by
    revert hcount
    cases c.model.architecture <;> decide
  have hlinear : c.model.hasLinear = false := by
    revert hmla
    unfold EngineConfig.cachePlan
    have hother : ¬ (c.model.architecture = .kimiK3 ∨ c.model.architecture = .glm5Next) := by
      revert hcount
      cases c.model.architecture <;> decide
    cases c.model.hasLinear with
    | false => intro _; rfl
    | true =>
      rw [if_neg hother]
      split <;> simp
  simp [EngineConfig.published, hgemma, hlinear]

theorem targets_of_mtp (hpred : c.PredictorsAgree) (hmtp : 0 < c.mtpNumKvLayers) :
    (List.range c.model.numHiddenLayers).filter c.published = List.range c.model.numHiddenLayers :=
  List.filter_eq_self.2 (fun i _ => published_of_mtp hpred hmtp i)

theorem publishedPredictors_eq (hpred : c.PredictorsAgree) :
    c.publishedPredictors = List.range' c.model.numHiddenLayers c.mtpNumKvLayers := by
  unfold EngineConfig.publishedPredictors
  rcases Nat.eq_zero_or_pos c.mtpNumKvLayers with hzero | hmtp
  · rw [hzero]
    rfl
  · rw [targets_of_mtp hpred hmtp, List.length_range]

/-- The listed slots are in order. -/
theorem flatten_sublist (h : Started c ranges p) (hpred : c.PredictorsAgree) :
    p.cacheLayers.flatten.Sublist (List.range (c.model.numHiddenLayers + c.mtpNumKvLayers)) := by
  have hsplit := range'_split (Nat.zero_le c.model.numHiddenLayers) (Nat.le_add_right _ c.mtpNumKvLayers)
  rw [Nat.sub_zero, Nat.sub_zero, Nat.add_sub_cancel_left, ← List.range_eq_range', ← List.range_eq_range'] at hsplit
  rw [h.flatten_cacheLayers, publishedPredictors_eq hpred, hsplit]
  exact List.filter_sublist.append_right _

theorem stageValid (h : Started c ranges p) (hpred : c.PredictorsAgree) {s : ℕ} {r : ℕ × ℕ}
    (hr : ranges[s]? = some r) :
    p.stageValid s r (p.cacheLayers.getD s []) = true := by
  have hb := (h.covers.bounds (List.mem_of_getElem? hr)).2.2
  have htargets : ∀ i ∈ c.publishedIn r, r.1 ≤ i ∧ i < r.2 := by
    intro i hi
    have := List.mem_range'_1.1 (List.mem_of_mem_filter hi)
    omega
  -- the layers of a stage are below `num_hidden_layers`, the predictor slots from there on
  have hlow : (c.publishedIn r).filter (· < c.model.numHiddenLayers) = c.publishedIn r := by
    rw [List.filter_eq_self]
    intro i hi
    have := htargets i hi
    rw [decide_eq_true_eq]
    omega
  have hlow' : (c.publishedIn r).filter (c.model.numHiddenLayers ≤ ·) = [] := by
    rw [List.filter_eq_nil_iff]
    intro i hi
    have := htargets i hi
    rw [decide_eq_true_eq]
    omega
  have hhigh : c.publishedPredictors.filter (· < c.model.numHiddenLayers) = [] := by
    rw [publishedPredictors_eq hpred, List.filter_eq_nil_iff]
    intro i hi
    have := (List.mem_range'_1.1 hi).1
    rw [decide_eq_true_eq]
    omega
  have hhigh' : c.publishedPredictors.filter (c.model.numHiddenLayers ≤ ·) = c.publishedPredictors := by
    rw [publishedPredictors_eq hpred, List.filter_eq_self]
    intro i hi
    have := (List.mem_range'_1.1 hi).1
    rw [decide_eq_true_eq]
    omega
  have hall : (c.publishedIn r).all (fun layer => decide (r.1 ≤ layer) && decide (layer < r.2)) = true := by
    rw [List.all_eq_true]
    intro i hi
    simpa using htargets i hi
  have hn : p.numHiddenLayers = c.model.numHiddenLayers := by rw [h.metadata]
  have hslots : p.predictorSlots = c.publishedPredictors := by
    rw [publishedPredictors_eq hpred, h.metadata]
    rfl
  have hpp : p.pp = c.pp := by rw [h.metadata]
  unfold PpMetadata.stageValid
  rw [h.getD_cacheLayers hr, hn, hslots, hpp]
  by_cases hlast : s + 1 = c.pp
  · rw [if_pos hlast]
    simp only [List.filter_append, hlow, hlow', hhigh, hhigh', List.append_nil, List.nil_append,
      hall, hlast, decide_true,
      Bool.and_self, Bool.or_true]
  · rw [if_neg hlast]
    simp only [List.append_nil, hlow, hlow', hall]
    rfl

theorem decodeCache_eq (c : EngineConfig) :
    c.decodeCache = ((List.range c.model.numHiddenLayers).filter c.owned).map .target ++
      (List.range c.ownedPredictors).map .predictor := by
  have hr : [((0 : ℕ), c.model.numHiddenLayers)][0]? = some (0, c.model.numHiddenLayers) := rfl
  have h := stageCache_eq c.decode hr
  have hlast : 0 + 1 = c.decode.pp := rfl
  simp only [if_pos hlast, Nat.sub_zero, ← List.range_eq_range'] at h
  exact h

theorem length_flatten (h : Started c ranges p) (htypes : c.TypesAgree) (hpred : c.PredictorsAgree) :
    p.cacheLayers.flatten.length = c.decodeCache.length := by
  have hfilter : (List.range c.model.numHiddenLayers).filter c.published =
      (List.range c.model.numHiddenLayers).filter c.owned :=
    filter_eq_filter_iff.2 (fun i hi => EngineConfig.published_eq_owned_iff.2 htypes i (List.mem_range.1 hi))
  rw [h.flatten_cacheLayers, decodeCache_eq, hfilter, List.length_append, List.length_append, List.length_map,
    List.length_map, List.length_range, ← EngineConfig.mtpNumKvLayers_eq_iff.2 hpred]
  simp [EngineConfig.publishedPredictors]

theorem valid (h : Started c ranges p) (hle : c.pp ≤ c.model.numHiddenLayers) (htypes : c.TypesAgree)
    (hpred : c.PredictorsAgree) : p.valid c.decodeCache.length = true := by
  have hpos := h.pos
  have hn : p.numHiddenLayers = c.model.numHiddenLayers := by rw [h.metadata]
  have hpp : p.pp = c.pp := by rw [h.metadata]
  have hmtp : p.mtpNumKvLayers = c.mtpNumKvLayers := by rw [h.metadata]
  have hsub := h.flatten_sublist hpred
  have hnodup : p.cacheLayers.flatten.Nodup := hsub.nodup List.nodup_range
  have hsorted : p.cacheLayers.flatten.Pairwise (· ≤ ·) := (List.pairwise_lt_range.imp Nat.le_of_lt).sublist hsub
  have htail : p.cacheLayers.flatten.drop (p.cacheLayers.flatten.length - c.mtpNumKvLayers) = p.predictorSlots := by
    have hslots : p.predictorSlots = c.publishedPredictors := by
      rw [publishedPredictors_eq hpred, h.metadata]
      rfl
    have hlen : c.publishedPredictors.length = c.mtpNumKvLayers := by simp [EngineConfig.publishedPredictors]
    rw [h.flatten_cacheLayers, List.length_append, hlen, Nat.add_sub_cancel, List.drop_left, hslots]
  have hstages : p.cacheLayers.zipIdx.all (fun e => p.stageValid e.2 (p.layerRanges.getD e.2 (0, 0)) e.1) = true := by
    rw [List.all_eq_true]
    rintro ⟨layers, s⟩ he
    have hget : p.cacheLayers[s]? = some layers := by
      obtain ⟨hlt, heq⟩ := List.mem_zipIdx' he
      rw [List.getElem?_eq_getElem hlt, heq]
    have hs : s < ranges.length := by
      rw [h.length, ← h.length_cacheLayers]
      exact (List.getElem?_eq_some_iff.1 hget).1
    have hr := List.getElem?_eq_getElem hs
    have hv := h.stageValid hpred hr
    have hranges : p.layerRanges = ranges := by rw [h.metadata]
    rw [List.getD_eq_getElem?_getD, hget, Option.getD_some] at hv
    rw [hranges, List.getD_eq_getElem?_getD, hr, Option.getD_some]
    exact hv
  have hlayers : 0 < c.model.numHiddenLayers := by omega
  have hlength := h.length_flatten htypes hpred
  rw [hlength] at htail
  simp only [PpMetadata.valid, hn, if_neg hlayers.ne', h.rangesValid, hpp, hmtp, h.length_cacheLayers, hlength, hstages,
    hnodup, hsorted, htail, hlayers, decide_true, Bool.and_self, Bool.or_true]

/-! ## The reads -/

/-- The caches of the stages, one behind the other, are the cache of the decode engine. -/
theorem flatMap_stageCache (h : Started c ranges p) :
    (List.range c.pp).flatMap (c.stageCache ranges) = c.decodeCache := by
  have hrange := h.covers.flatMap_range'
  have hlen := h.length
  obtain ⟨init, last, rfl⟩ := exists_concat_of_length_pos (h.length ▸ h.pos : 0 < ranges.length)
  have hpp : init.length + 1 = c.pp := by simpa using hlen
  have hinit : (List.range init.length).map (c.stageCache (init ++ [last])) =
      init.map (fun r => ((List.range' r.1 (r.2 - r.1)).filter c.owned).map CacheLayer.target) := by
    apply List.ext_getElem?
    intro s
    rw [List.getElem?_map, List.getElem?_map]
    rcases Nat.lt_or_ge s init.length with hs | hs
    · have hr : (init ++ [last])[s]? = some init[s] := by
        rw [List.getElem?_append_left hs, List.getElem?_eq_getElem hs]
      rw [List.getElem?_range hs, List.getElem?_eq_getElem hs, Option.map_some, Option.map_some, stageCache_eq c hr,
        if_neg (by omega)]
      simp
    · rw [List.getElem?_eq_none (by simpa using hs), List.getElem?_eq_none hs]
      rfl
  have hlast := stageCache_eq c (by simp : (init ++ [last])[init.length]? = some last)
  rw [if_pos hpp] at hlast
  rw [Nat.sub_zero, ← List.range_eq_range', List.flatMap_append] at hrange
  rw [← hpp, List.range_succ, List.flatMap_append, List.flatMap_def, hinit, List.flatMap_singleton,
    hlast, decodeCache_eq,
    ← hrange, List.filter_append, List.map_append, List.filter_flatMap, List.map_flatMap, List.flatMap_singleton,
    List.append_assoc, List.flatMap_def]

end Started

section Reads

variable {α β : Type}

/-- `cacheLocations` with the stages counted from `k`. -/
theorem getElem?_locations {stages : List (List α)} {caches : List (List β)}
    (h : List.Forall₂ (fun a b => a.length = b.length) stages caches) (k : ℕ) {i : ℕ} {x : α}
    (hx : stages.flatten[i]? = some x) :
    ∃ stage slot cache, ((stages.zipIdx k).flatMap (fun e => e.1.zipIdx.map (fun y => (y.1, e.2, y.2))))[i]? =
        some (x, k + stage, slot) ∧ caches[stage]? = some cache ∧ cache[slot]? = caches.flatten[i]? := by
  induction h generalizing k i with
  | nil => simp at hx
  | @cons a b stages caches hab _ ih =>
    rw [List.zipIdx_cons, List.flatMap_cons]
    rw [List.flatten_cons] at hx
    have hlen : (a.zipIdx.map (fun y => (y.1, k, y.2))).length = a.length := by simp
    rcases Nat.lt_or_ge i a.length with hi | hi
    · refine ⟨0, i, b, ?_, rfl, ?_⟩
      · rw [List.getElem?_append_left hi] at hx
        rw [List.getElem?_append_left (by simpa using hi), List.getElem?_map, List.getElem?_zipIdx, hx]
        simp
      · rw [List.flatten_cons, List.getElem?_append_left (by omega)]
    · rw [List.getElem?_append_right hi] at hx
      obtain ⟨stage, slot, cache, hloc, hcache, hslot⟩ := ih (k + 1) hx
      refine ⟨stage + 1, slot, cache, ?_, hcache, ?_⟩
      · rw [List.getElem?_append_right (by simpa using hi), hlen, hloc, show k + 1 + stage = k + (stage + 1) by omega]
      · rw [List.flatten_cons, List.getElem?_append_right (by omega), ← hab, hslot]

theorem map_fst_cacheLocations (stages : List (List α)) : (cacheLocations stages).map Prod.fst = stages.flatten := by
  have hstage (e : List α × ℕ) : (e.1.zipIdx.map (fun x => (x.1, e.2, x.2))).map Prod.fst = e.1 := by
    rw [List.map_map]
    exact List.zipIdx_map_fst 0 e.1
  unfold cacheLocations
  rw [List.map_flatMap]
  simp only [hstage]
  rw [List.flatMap_def, List.zipIdx_map_fst]

/-- With distinct keys the lookup finds the entry. -/
theorem find?_reverse_of_nodup [DecidableEq α] {entries : List (α × β)}
    (hnodup : (entries.map Prod.fst).Nodup) {e : α × β}
    (he : e ∈ entries) : entries.reverse.find? (fun x => decide (x.1 = e.1)) = some e := by
  cases hfind : entries.reverse.find? (fun x => decide (x.1 = e.1)) with
  | none =>
    have := List.find?_eq_none.1 hfind e (List.mem_reverse.2 he)
    simp at this
  | some e' =>
    have hkey : e'.1 = e.1 := by simpa using List.find?_some hfind
    have hmem : e' ∈ entries := List.mem_reverse.1 (List.mem_of_find?_eq_some hfind)
    rw [List.inj_on_of_nodup_map hnodup hmem he hkey]

end Reads

/-- Every layer is read from the stage and the slot that hold it. -/
theorem getElem?_cacheReads (cell : MeshCell) {stages : List (List ℕ)} {caches : List (List CacheLayer)}
    (h : List.Forall₂ (fun a b => a.length = b.length) stages caches) (hnodup : stages.flatten.Nodup) {i : ℕ}
    (hi : i < stages.flatten.length) :
    ∃ stage slot cache, (cacheReads cell stages)[i]? = some (some
        { localLayer := i, rank := cell.ppGlobalRank stage, remoteLayer := slot, remoteLayers := cache.length }) ∧
      caches[stage]? = some cache ∧ cache[slot]? = caches.flatten[i]? := by
  have hx := List.getElem?_eq_getElem hi
  obtain ⟨stage, slot, cache, hloc, hcache, hslot⟩ := getElem?_locations h 0 hx
  refine ⟨stage, slot, cache, ?_, hcache, hslot⟩
  have hkeys : ((cacheLocations stages).map Prod.fst).Nodup := by rwa [map_fst_cacheLocations]
  have hfind := find?_reverse_of_nodup hkeys (List.mem_of_getElem? hloc)
  have hlength : (stages.getD stage []).length = cache.length := by
    have hs : stage < stages.length := h.length_eq ▸ (List.getElem?_eq_some_iff.1 hcache).1
    obtain ⟨hs', rfl⟩ := List.getElem?_eq_some_iff.1 hcache
    rw [List.getD_eq_getElem?_getD, List.getElem?_eq_getElem hs]
    exact h.get hs hs'
  have hrank : stage * cell.innerWorldSize + cell.ppGlobalRank 0 = cell.ppGlobalRank stage := by
    simp [MeshCell.ppGlobalRank]
  unfold cacheReads
  rw [List.getElem?_map, List.getElem?_zipIdx, hx]
  simp only [Option.map_some, Nat.zero_add] at hfind ⊢
  rw [hfind]
  simp only [Option.map_some, hlength, hrank]

namespace Started

variable {c : EngineConfig} {ranges : List (ℕ × ℕ)} {p : PpMetadata}

/-- The layers the reads go by are distinct and, stage by stage, as many as are allocated. -/
theorem readLayers (h : Started c ranges p) (htypes : c.TypesAgree) (hpred : c.PredictorsAgree) :
    List.Forall₂ (fun a b => a.length = b.length) (p.readLayers c.decodeCache.length)
        ((List.range c.pp).map (c.stageCache ranges)) ∧
      (p.readLayers c.decodeCache.length).flatten.Nodup ∧
      (p.readLayers c.decodeCache.length).flatten.length = c.decodeCache.length := by
  have hpp : p.pp = c.pp := by rw [h.metadata]
  unfold PpMetadata.readLayers
  rw [hpp]
  by_cases hone : 1 < c.pp
  · rw [if_pos hone]
    refine ⟨?_, (h.flatten_sublist hpred).nodup List.nodup_range, h.length_flatten htypes hpred⟩
    rw [List.forall₂_iff_get]
    refine ⟨by simp [h.length_cacheLayers], fun s hs _ => ?_⟩
    have hstage := h.stages_iff.2 ⟨htypes, hpred⟩ s (h.length_cacheLayers ▸ hs)
    have hlength : (p.stageLayers s).length = (p.cacheLayers.getD s []).length := by
      unfold PpMetadata.stageLayers
      simp only [List.length_append, List.length_map, List.length_zipIdx, List.length_take, List.length_drop]
      omega
    rw [hstage, List.getD_eq_getElem?_getD, List.getElem?_eq_getElem hs, Option.getD_some] at hlength
    simpa using hlength.symm
  · rw [if_neg hone]
    have hpp1 : c.pp = 1 := by
      have := h.pos
      omega
    have hcache := h.flatMap_stageCache
    simp only [hpp1, List.range_one, List.flatMap_singleton] at hcache
    refine ⟨?_, by simpa using List.nodup_range, by simp⟩
    rw [hpp1, List.range_one, List.map_singleton, hcache]
    exact .cons (by simp) .nil

theorem «matches» (h : Started c ranges p) (hle : c.pp ≤ c.model.numHiddenLayers) (htypes : c.TypesAgree)
    (hpred : c.PredictorsAgree) : p.Matches c ranges := by
  obtain ⟨hforall, hnodup, hlength⟩ := h.readLayers htypes hpred
  refine ⟨h.stages_iff.2 ⟨htypes, hpred⟩, h.valid hle htypes hpred, fun cell => ?_, fun cell i hi => ?_⟩
  · rw [cacheReads, List.length_map, List.length_zipIdx, hlength]
  · obtain ⟨stage, slot, cache, hread, hcache, hslot⟩ := getElem?_cacheReads cell hforall hnodup (hlength ▸ hi)
    have hs : stage < c.pp := by simpa using (List.getElem?_eq_some_iff.1 hcache).1
    rw [List.getElem?_map, List.getElem?_range hs, Option.map_some, Option.some.injEq] at hcache
    rw [← List.flatMap_def, h.flatMap_stageCache] at hslot
    subst hcache
    exact ⟨stage, hs, slot, hread, hslot⟩

end Started

/-- The metadata of a prefill engine that starts is right exactly when every layer type is one that publisher and
allocator treat alike, and both count the same predictor layers. -/
theorem exists_matches_iff (c : EngineConfig) (ranges : List (ℕ × ℕ)) (hpp : 1 ≤ c.pp)
    (hle : c.pp ≤ c.model.numHiddenLayers) (hstart : c.stageRanges = some ranges) :
    (∃ p, c.metadata = some p ∧ p.Matches c ranges) ↔ c.TypesAgree ∧ c.PredictorsAgree := by
  obtain ⟨hcov, hlen⟩ := EngineConfig.stageRanges_covers hpp hle hstart
  have hmeta := EngineConfig.metadata_eq hpp hle hstart
  have hstarted : Started c ranges _ := ⟨hpp, hcov, hlen, rfl⟩
  constructor
  · rintro ⟨p, hp, hmatches⟩
    obtain rfl := Option.some.inj (hmeta.symm.trans hp)
    exact hstarted.stages_iff.1 hmatches.stages
  · rintro ⟨htypes, hpred⟩
    exact ⟨_, hmeta, hstarted.matches hle htypes hpred⟩

/-- A model of `n` layers of which every fourth is not linear. -/
def hybridModel (a : Architecture) (ha : a.isGemma4 = false) (t : LayerType) (n : ℕ) : ModelConfig where
  architecture := a
  numHiddenLayers := n
  layerTypes := some ((List.range n).map (fun i => if i % 4 = 3 then t else .linearAttention))
  numKvSharedLayers := 0
  numNextnPredictLayers := 1
  mtpNumHiddenLayers := 0
  compressRatios := []
  kvLoraRank := 0
  qkRopeHeadDim := 0
  nestedLinear := false
  length_layerTypes := by simp
  gemma4_layerTypes := by simp [ha]
  shared_le := Nat.zero_le n

/-- A Qwen3.5 prefill engine of two stages. -/
def qwen35Prefill : EngineConfig where
  model := hybridModel .qwen35 rfl .fullAttention 8
  pp := 2
  numSpeculativeTokens := 0
  enableHisparse := false

theorem exists_matches_qwen35 :
    qwen35Prefill.stageRanges = some [(0, 4), (4, 8)] ∧ qwen35Prefill.ppCacheLayerIndices = some [[3], [7]] ∧
      ∃ p, qwen35Prefill.metadata = some p ∧ p.Matches qwen35Prefill [(0, 4), (4, 8)] :=
  ⟨by decide, by decide, (exists_matches_iff qwen35Prefill _ (by decide) (by decide) (by decide)).2 (by decide)⟩

/-- A GLM-5.3 prefill engine: its paged layers are not called `full_attention`. -/
def glm53Prefill : EngineConfig where
  model := hybridModel .glm5Next rfl (.other "deepseek_sparse_attention") 8
  pp := 1
  numSpeculativeTokens := 0
  enableHisparse := false

/-- The stage of a GLM-5.3 engine allocates two layers and the engine publishes none. -/
theorem not_exists_matches :
    ¬ ∀ (c : EngineConfig) (ranges : List (ℕ × ℕ)), 1 ≤ c.pp → c.pp ≤ c.model.numHiddenLayers →
      c.stageRanges = some ranges → ∃ p, c.metadata = some p ∧ p.Matches c ranges := by
  intro h
  obtain ⟨p, hp, hmatches⟩ := h glm53Prefill [(0, 8)] (by decide) (by decide) (by decide)
  have hcache : glm53Prefill.stageCache [(0, 8)] 0 = [.target 3, .target 7] := by decide
  have hlayers : (glm53Prefill.metadata.map (·.stageLayers 0)) = some [] := by decide
  have hstage := hmatches.stages 0 (by decide)
  rw [hp, Option.map_some, Option.some.injEq, hstage, hcache] at hlayers
  cases hlayers

end NanoEngine.Disagg
