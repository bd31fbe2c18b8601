import NanoEngine.Router.Json

/-!
# NanoEngine.Router.Engines — the engine pools of the router

`rust/src/router/engine_manager.rs`: the parsing of an entity, the pools by model and the periodic sync.

* A `HashMap` is a function to `Option`, except `engine_model_map`, whose keys are enumerated: a list with distinct
  keys. Stale engines are removed in the order of this list.
* `fabric_placement.routes` is a set that is only tested for common elements: a list.
-/

namespace NanoEngine

namespace Router

structure HttpFabricPlacement where
  advertised : Bool
  routes : List String
  deriving DecidableEq

/-- The three vectors that a role selects. -/
inductive Role
  | hybrid
  | prefill
  | decode
  deriving DecidableEq

structure ModelPool where
  httpEngines : Role → List String
  httpEngineFabricPlacements : String → Option HttpFabricPlacement

def ModelPool.default : ModelPool := ⟨fun _ => [], fun _ => none⟩

/-- The part of `handle_remove_engine` for one pool. -/
def ModelPool.remove (pool : ModelPool) (url : String) : ModelPool where
  httpEngines := fun role => (pool.httpEngines role).filter (fun u => decide (u ≠ url))
  httpEngineFabricPlacements := Function.update pool.httpEngineFabricPlacements url none

structure HttpEngineInfo where
  engineId : String
  role : String
  url : String
  fabricPlacement : HttpFabricPlacement
  deriving DecidableEq

/-- The vector of a role: every other role is `hybrid`. -/
def HttpEngineInfo.roleOf (info : HttpEngineInfo) : Role :=
  if info.role = "prefill" then .prefill else if info.role = "decode" then .decode else .hybrid

structure EngineManager where
  modelPools : String → Option ModelPool
  engineModelMap : List (String × String)
  httpEngineUrls : String → Option String

namespace EngineManager

def new : EngineManager := ⟨fun _ => none, [], fun _ => none⟩

/-! ## Entities -/

def normalizeModelKey (path : String) : String := trimEndSlashes (trim path)

def entityId (info : Value) : Option String :=
  ((info.get "entity_id").or (info.get "id")).bind Value.asStr

/-- The routes of one placement. -/
def placementRoutes (placement : Value) : List String :=
  match (placement.get "fabric_domain_id").bind Value.asStr with
  | none => []
  | some domain =>
    (((placement.get "imex_channel_ids").bind Value.asArray).getD []).filterMap Value.asU64
      |>.map (fun channel => domain ++ ":" ++ toString channel)

/-- `reduce` with the intersection. -/
def commonRoutes : List (List String) → List String
  | [] => []
  | routes :: rest => rest.foldl (fun common current => common.filter (fun r => decide (r ∈ current))) routes

def parseHttpEngineInfo (info : Value) : Option HttpEngineInfo :=
  if (info.get "kind").bind Value.asStr ≠ some "dlengine" then none
  else do
    let endpoint ← (info.get "endpoint").bind Value.asObject
    let protocol := ((endpoint.get "protocol").bind Value.asStr).getD "http"
    if protocol ≠ "http" ∧ protocol ≠ "https" then none
    else do
      let host ← (endpoint.get "host").bind Value.asStr
      let port ← (endpoint.get "port").bind Value.asU64
      let connectHost := if host = "0.0.0.0" then "127.0.0.1" else host
      let role := (((info.get "metadata").bind Value.asObject).bind (·.get "role")).bind Value.asStr
      let placements := ((info.get "resource").bind (·.get "placements")).bind Value.asArray
      some {
        engineId := (entityId info).getD "unknown"
        role := toAsciiLowercase (role.getD "hybrid")
        url := protocol ++ "://" ++ connectHost ++ ":" ++ toString port
        fabricPlacement :=
          ⟨decide (placements.getD [] ≠ []), commonRoutes ((placements.getD []).map placementRoutes)⟩ }

/-- `add` of `model_aliases_from_metadata`. -/
def addAlias (aliases : List String) (value : Option String) : List String :=
  match value with
  | none => aliases
  | some value =>
    let key := normalizeModelKey value
    if key ≠ "" ∧ key ∉ aliases then aliases ++ [key] else aliases

def modelAliasesFromMetadata (metadata : Value) : List String :=
  let aliases := addAlias [] ((metadata.get "served_model_name").bind Value.asStr)
  match (metadata.get "model_path").bind Value.asStr with
  | none => aliases
  | some modelPath => addAlias (addAlias aliases (some modelPath)) (some (afterLastSlash (trimEndSlashes modelPath)))

/-! ## Insertion and removal -/

def insertHttpEngine (m : EngineManager) (info : HttpEngineInfo) (modelKey : String) : EngineManager :=
  let pool := (m.modelPools modelKey).getD ModelPool.default
  let engines := pool.httpEngines info.roleOf
  let pool : ModelPool := {
    httpEngines := Function.update pool.httpEngines info.roleOf
      (if info.url ∈ engines then engines else engines ++ [info.url])
    httpEngineFabricPlacements := Function.update pool.httpEngineFabricPlacements info.url (some info.fabricPlacement) }
  { modelPools := Function.update m.modelPools modelKey (some pool)
    engineModelMap := m.engineModelMap.filter (fun e => decide (e.1 ≠ info.engineId)) ++ [(info.engineId, modelKey)]
    httpEngineUrls := Function.update m.httpEngineUrls info.engineId (some info.url) }

/-- What `add_engine_from_info` reads of an entity: the parsed engine, its model path and the keys it is listed under.
-/
structure Registration where
  info : HttpEngineInfo
  modelPath : String
  keys : List String
  deriving DecidableEq

/-- The checks of `add_engine_from_info`, with the texts of its errors. -/
def registration (engineInfo : Value) : Except String Registration :=
  match parseHttpEngineInfo engineInfo with
  | none => .error "not a DLEngine HTTP entity"
  | some info =>
    match (engineInfo.get "metadata").bind Value.asObject with
    | none => .error "HTTP DLEngine entity missing metadata"
    | some metadata =>
      match ((metadata.get "model_path").bind Value.asStr).filter (fun p => decide (p ≠ "")) with
      | none => .error "HTTP DLEngine entity missing model_path"
      | some modelPath =>
        let aliases := modelAliasesFromMetadata metadata
        .ok ⟨info, modelPath, if aliases = [] then [normalizeModelKey modelPath] else aliases⟩

/-- The part of `add_engine_from_info` after its checks. -/
def register (m : EngineManager) (r : Registration) : EngineManager :=
  let m := r.keys.foldl (fun m key => m.insertHttpEngine r.info key) m
  { m with
    engineModelMap := m.engineModelMap.filter (fun e => decide (e.1 ≠ r.info.engineId)) ++
      [(r.info.engineId, normalizeModelKey r.modelPath)] }

/-- `add_engine_from_info`. -/
def addEngineFromInfo (m : EngineManager) (engineInfo : Value) : Except String Unit × EngineManager :=
  match registration engineInfo with
  | .error e => (.error e, m)
  | .ok r => (.ok (), m.register r)

/-- `handle_remove_engine`. -/
def handleRemoveEngine (m : EngineManager) (engineId : String) : Except String Unit × EngineManager :=
  match m.httpEngineUrls engineId with
  | none => (.error ("Engine " ++ engineId ++ " not found"), m)
  | some url =>
    (.ok (), {
      modelPools := fun key => (m.modelPools key).map (·.remove url)
      engineModelMap := m.engineModelMap.filter (fun e => decide (e.1 ≠ engineId))
      httpEngineUrls := Function.update m.httpEngineUrls engineId none })

/-! ## Sync -/

/-- The entities of a reply to `list_entities`, as `list_engines_from_ctrl` filters them. -/
def listEngines (result : Value) : Except String (List Value) :=
  if (result.get "status").bind Value.asStr ≠ some "ok" then .error "NanoCtrl list_entities returned non-ok status"
  else .ok ((((result.get "entities").bind Value.asArray).getD []).filter
    (fun entity => decide ((entity.get "kind").bind Value.asStr = some "dlengine")))

/-- `load_initial_engines`, for the engines listed. -/
def loadInitialEngines (m : EngineManager) (engines : List Value) : EngineManager :=
  engines.foldl (fun m info => (m.addEngineFromInfo info).2) m

/-- The loop of `handle_periodic_sync` that adds the engines whose id is not in `local_ids`. -/
def addLive (localIds : List String) (m : EngineManager) (liveEngines : List Value) : EngineManager :=
  liveEngines.foldl (fun m info =>
    match entityId info with
    | none => m
    | some engineId => if engineId ∈ localIds then m else (m.addEngineFromInfo info).2) m

/-- The loop of `handle_periodic_sync` over the stale ids. -/
def removeStale (m : EngineManager) (stale : List String) : EngineManager :=
  stale.foldl (fun m id => (m.handleRemoveEngine id).2) m

/-- The body of `handle_periodic_sync` for the engines listed. -/
def syncWith (m : EngineManager) (liveEngines : List Value) : EngineManager :=
  let liveIds := liveEngines.filterMap entityId
  let localIds := m.engineModelMap.map (·.1)
  (addLive localIds m liveEngines).removeStale (localIds.filter (fun id => decide (id ∉ liveIds)))

/-- `handle_periodic_sync`: `reply` is what the control service answers, or the error of the request. -/
def handlePeriodicSync (m : EngineManager) (reply : Except String Value) : Except String Unit × EngineManager :=
  match reply with
  | .error e => (.error e, m)
  | .ok result =>
    match listEngines result with
    | .error e => (.error e, m)
    | .ok liveEngines => (.ok (), m.syncWith liveEngines)

end EngineManager

end Router

end NanoEngine
