import Mathlib.Data.List.Basic
import NanoEngine.Proto.Requests

/-!
# NanoEngine.Proto.Classify — which payload is read as what

* `Carries`, `CarriesRequest`: the sequence has the fields of a migration, or of a request.
* `addRequestBytes_toBytes`: a request is read as a request.
* `addRequestBytes_migrate_iff`: a migration is read as a migration unless its bytes begin with a list of requests.
* `addRequestBytes_classifies`
-/

namespace NanoEngine.Requests

open Codec

section codecs

theorem canonical_samplingParams : samplingParams.Canonical :=
  canonical_iso (canonical_pair (canonical_fixint 8) (canonical_pair (canonical_fixint 4)
    (canonical_pair canonical_bool canonical_bool))) _ fun _ => rfl

theorem canonical_visionSlot : visionSlot.Canonical :=
  canonical_iso (canonical_pair canonical_string
    (canonical_pair (canonical_fixint 4) (canonical_pair (canonical_fixint 4)
    (canonical_pair (canonical_fixint 4) (canonical_fixint 4))))) _ fun _ => rfl

theorem canonical_requestIn : requestIn.Canonical :=
  canonical_iso (canonical_pair canonical_u64 (canonical_pair (canonical_list (canonical_fixint 4))
    (canonical_pair canonical_samplingParams (canonical_pair canonical_u64 (canonical_list canonical_visionSlot))))) _
    fun _ => rfl

theorem decodeBinary_encode {α : Type} (c : Codec α) (value : α) (rest : Bytes) :
    decodeBinary c (encodeBinary c value ++ rest) = some value := by
  rw [decodeBinary, encodeBinary, c.decode_encode, Option.map_some]

theorem decodeBinary_eq_none_iff {α : Type} {c : Codec α} (hc : c.Canonical) {data : Bytes} :
    decodeBinary c data = none ↔ ¬ ∃ value, encodeBinary c value <+: data := by
  rw [decodeBinary, Option.map_eq_none_iff]
  exact hc.decode_eq_none_iff

end codecs

/-- The sequence has every field of the migration; the size of a group is at least one. -/
structure Carries (m : WireRequestMigrate) (seq : Sequence) : Prop where
  seqId : seq.seqId = m.seqId
  status : seq.status = m.status
  tokenIds : seq.tokenIds = m.tokenIds.1
  lastToken : seq.lastToken = m.lastToken
  numTokens : seq.numTokens = m.numTokens
  numPromptTokens : seq.numPromptTokens = m.numPromptTokens
  numCheckpointedTokens : seq.numCheckpointedTokens = m.numCheckpointedTokens
  numCachedTokens : seq.numCachedTokens = m.numCachedTokens
  affinityKey : seq.affinityKey = m.affinityKey
  samplingParams : seq.samplingParams = m.samplingParams.toSamplingParams
  completionLogprobs : seq.completionLogprobs = m.completionLogprobs.1
  activeBlockTable : seq.activeBlockTable = m.activeBlockTable.1
  activeBlockTables : seq.activeBlockTables = m.activeBlockTables
  activeDispatchedTokens : seq.activeDispatchedTokens = m.activeDispatchedTokens.1
  activeDpIdx : seq.activeDpIdx = m.activeDpIdx
  activeGroupId : seq.activeGroupId = m.activeGroupId
  activeStateSlot : seq.activeStateSlot = m.activeStateSlot
  activeCompressedBlockTables : seq.activeCompressedBlockTables = m.activeCompressedBlockTables
  activeHisparseSlot : seq.activeHisparseSlot = m.activeHisparseSlot
  migrateBlockTable : seq.migrateBlockTable = m.migrateBlockTable.1
  migrateBlockTables : seq.migrateBlockTables = m.migrateBlockTables
  migrateEngineId : seq.migrateEngineId = m.migrateEngineId
  migrateNumKvcacheBlocks : seq.migrateNumKvcacheBlocks = m.migrateNumKvcacheBlocks
  migrateGroupSize : seq.migrateGroupSize.toInt = max m.migrateGroupSize.toInt 1
  migrateDpIdx : seq.migrateDpIdx = m.migrateDpIdx
  migrateGroupId : seq.migrateGroupId = m.migrateGroupId
  migrateStateSlot : seq.migrateStateSlot = m.migrateStateSlot
  migrateCompressedBlockTables : seq.migrateCompressedBlockTables = m.migrateCompressedBlockTables
  migrateHisparseSlot : seq.migrateHisparseSlot = m.migrateHisparseSlot

/-- The sequence has the id, prompt, sampling parameters, affinity key and vision slots of the request. -/
structure CarriesRequest (r : RequestIn) (seq : Sequence) : Prop where
  seqId : seq.seqId = r.seqId
  tokenIds : seq.tokenIds = r.promptTokenIds.1
  samplingParams : seq.samplingParams = r.samplingParams.toSamplingParams
  affinityKey : seq.affinityKey = r.affinityKey
  visionSlots : seq.visionSlots = r.visionSlots.1.map fun x => ⟨x.1, x.2.1, x.2.2.1, x.2.2.2.1, x.2.2.2.2⟩

theorem toInt_max1 (x : I32) : (max1 x).toInt = max x.toInt 1 := by
  unfold max1
  split_ifs with h
  · rw [Int.max_eq_right h]
    rfl
  · rw [Int.max_eq_left (by omega)]

theorem carries_migrateRequestToSequence (nextSeqId : U64) (m : WireRequestMigrate) :
    Carries m (migrateRequestToSequence nextSeqId m) := by
  constructor
  case migrateGroupSize => exact toInt_max1 m.migrateGroupSize
  all_goals rfl

theorem carries_requestToSequence (nextSeqId : U64) (r : RequestIn) :
    CarriesRequest r (requestToSequence nextSeqId r.toWire) := by
  refine ⟨rfl, rfl, rfl, rfl, ?_⟩
  rw [requestToSequence, RequestIn.toWire, List.map_map]
  rfl

theorem addRequestBytes_of_requests {nextSeqId : U64} {data : Bytes} {requests : Vec WireRequestIn}
    (h : decodeBinary (list requestIn) data = some requests) :
    addRequestBytes nextSeqId data = some
      { sequences := requestsToSequences nextSeqId requests.1
        returned := requests.1.map fun request =>
          (request.seqId, BitVec.ofNat 32 request.promptTokenIds.1.length) } := by
  rw [addRequestBytes, h]

theorem addRequestBytes_of_none {nextSeqId : U64} {data : Bytes} (h : decodeBinary (list requestIn) data = none) :
    addRequestBytes nextSeqId data = (decodeBinary requestMigrate data).map fun request =>
      { sequences := [migrateRequestToSequence nextSeqId request]
        returned := [(request.seqId, request.numPromptTokens)] } := by
  rw [addRequestBytes, h]

/-- The bytes of a request are read as a request. -/
theorem addRequestBytes_toBytes (nextSeqId : U64) (r : RequestIn) :
    ∃ added seq, addRequestBytes nextSeqId r.toBytes = some added ∧ added.sequences = [seq] ∧
      CarriesRequest r seq := by
  have hdecode : decodeBinary (list requestIn) r.toBytes = some ⟨[r.toWire], Nat.one_lt_two_pow (by decide)⟩ := by
    have hread := decodeBinary_encode (list requestIn) ⟨[r.toWire], Nat.one_lt_two_pow (by decide)⟩ []
    rwa [List.append_nil] at hread
  exact ⟨_, _, addRequestBytes_of_requests hdecode, rfl, carries_requestToSequence nextSeqId r⟩

/-- One request cannot stand for the migration it is read from: the low half of its id is the status of the migration.
-/
theorem not_carries_of_prefix {nextSeqId : U64} {m : WireRequestMigrate} {request : WireRequestIn}
    (h : encodeBinary (list requestIn) ⟨[request], Nat.one_lt_two_pow (by decide)⟩ <+:
      encodeBinary requestMigrate m) :
    ¬ Carries m (requestToSequence nextSeqId request) := by
  intro hcarries
  obtain ⟨rest, hrest⟩ := h
  have hdecode := congrArg u64.decode hrest
  have hlist : u64.decode (encodeBinary (list requestIn) ⟨[request], Nat.one_lt_two_pow (by decide)⟩ ++ rest) =
      some (1, requestIn.encode request ++ rest) := by
    have hencode : encodeBinary (list requestIn) ⟨[request], Nat.one_lt_two_pow (by decide)⟩ =
        u64.encode 1 ++ requestIn.encode request := by
      show u64.encode 1 ++ [request].flatMap requestIn.encode = _
      rw [List.flatMap_singleton]
    rw [hencode, List.append_assoc, u64.decode_encode]
  obtain ⟨tail, htail⟩ : ∃ tail, encodeBinary requestMigrate m =
    u64.encode m.seqId ++ (i32.encode m.status ++ tail) :=
    ⟨_, rfl⟩
  rw [hlist, htail, u64.decode_encode] at hdecode
  obtain ⟨hid, hbytes⟩ := Prod.mk.inj (Option.some.inj hdecode)
  obtain ⟨tail', htail'⟩ : ∃ tail', requestIn.encode request = u64.encode request.seqId ++ tail' := ⟨_, rfl⟩
  have hseqId : request.seqId = 1 := hcarries.seqId.trans hid.symm
  have hstatus : m.status = 0 := hcarries.status.symm
  rw [htail', hseqId, hstatus] at hbytes
  have hhead := congrArg List.head? hbytes
  cases hhead

/-- The bytes of a migration are read as the migration exactly when they do not begin with a list of requests. -/
theorem addRequestBytes_migrate_iff (nextSeqId : U64) (m : WireRequestMigrate) :
    (∃ added seq, addRequestBytes nextSeqId (encodeBinary requestMigrate m) = some added ∧
      added.sequences = [seq] ∧
      Carries m seq) ↔
        ¬ ∃ requests, encodeBinary (list requestIn) requests <+: encodeBinary requestMigrate m := by
  constructor
  · rintro ⟨added, seq, hadded, hsequences, hcarries⟩ ⟨requests, hpre⟩
    have hdecode : decodeBinary (list requestIn) (encodeBinary requestMigrate m) = some requests := by
      obtain ⟨rest, hrest⟩ := hpre
      rw [← hrest]
      exact decodeBinary_encode _ _ _
    rw [addRequestBytes_of_requests hdecode] at hadded
    obtain rfl := Option.some.inj hadded
    obtain ⟨requests, hlt⟩ := requests
    -- one sequence is one request
    cases requests with
    | nil => cases hsequences
    | cons request requests =>
      cases requests with
      | nil =>
        obtain rfl := (List.cons.inj hsequences).1
        exact not_carries_of_prefix hpre hcarries
      | cons request' requests => cases hsequences
  · intro hnone
    rw [← decodeBinary_eq_none_iff (canonical_list canonical_requestIn)] at hnone
    have hdecode : decodeBinary requestMigrate (encodeBinary requestMigrate m) = some m := by
      have hread := decodeBinary_encode requestMigrate m []
      rwa [List.append_nil] at hread
    rw [addRequestBytes_of_none hnone, hdecode]
    exact ⟨_, _, rfl, rfl, carries_migrateRequestToSequence nextSeqId m⟩

/-- A request is always read as itself; a migration exactly when its bytes do not begin with a list of requests. -/
theorem addRequestBytes_classifies (nextSeqId : U64) :
    (∀ r : RequestIn, ∃ added seq, addRequestBytes nextSeqId r.toBytes = some added ∧ added.sequences = [seq] ∧
      CarriesRequest r seq) ∧
    ∀ m : WireRequestMigrate,
      (∃ added seq, addRequestBytes nextSeqId (encodeBinary requestMigrate m) = some added ∧
        added.sequences = [seq] ∧
        Carries m seq) ↔
          ¬ ∃ requests, encodeBinary (list requestIn) requests <+: encodeBinary requestMigrate m :=
  ⟨addRequestBytes_toBytes nextSeqId, addRequestBytes_migrate_iff nextSeqId⟩

/-- The migration of sequence `1`, whose prompt is nine tokens `0`. -/
def nineZeros : WireRequestMigrate where
  seqId := 1
  status := 3
  tokenIds := ⟨List.replicate 9 0, by decide⟩
  lastToken := 0
  numTokens := 9
  numPromptTokens := 8
  numCheckpointedTokens := 9
  numCachedTokens := 0
  affinityKey := 0
  samplingParams := ⟨0, 16, false, false⟩
  completionLogprobs := ⟨[], by decide⟩
  activeBlockTable := ⟨[], by decide⟩
  activeBlockTables := noTables
  activeDispatchedTokens := ⟨[], by decide⟩
  activeDpIdx := 0
  activeGroupId := 0
  activeStateSlot := -1
  activeCompressedBlockTables := noTables
  activeHisparseSlot := -1
  migrateBlockTable := ⟨[0], by decide⟩
  migrateBlockTables := noTables
  migrateEngineId := emptyStr
  migrateNumKvcacheBlocks := 16
  migrateGroupSize := 1
  migrateDpIdx := 0
  migrateGroupId := 0
  migrateStateSlot := -1
  migrateCompressedBlockTables := noTables
  migrateHisparseSlot := -1

/-- Its bytes begin with a list of one request, with an empty prompt. -/
theorem not_classified : ¬ ∀ m : WireRequestMigrate, ∃ added seq,
    addRequestBytes 0 (encodeBinary requestMigrate m) = some added ∧ added.sequences = [seq] ∧ Carries m seq := by
  intro h
  refine (addRequestBytes_migrate_iff 0 nineZeros).1 (h nineZeros) ?_
  let request : WireRequestIn :=
    ⟨3 + 9 * 2 ^ 32, ⟨[], by decide⟩, ⟨0, 0, false, false⟩, 0, ⟨[], by decide⟩⟩
  refine ⟨⟨[request], Nat.one_lt_two_pow (by decide)⟩, ?_⟩
  decide +kernel

end NanoEngine.Requests
