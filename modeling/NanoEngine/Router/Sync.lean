import NanoEngine.Lib.Transition
import NanoEngine.Router.Engines

/-!
# NanoEngine.Router.Sync — the pools of the router follow the live engines

* `Listed m R`: what the manager holds when the engines of its last list registered as `R`.
* `Listed.register`, `Listed.removeStale`: what the two loops of a sync keep.
* `pools_follow`: after every sync of a run whose lists are compatible, the pools are those of the live engines.
* `not_pools_follow`: an engine that restarts under a new id at its old URL is lost.
-/

namespace NanoEngine

namespace Router

namespace EngineManager

/-! ## What the pools list -/

/-- The manager lists the URL under the model and the role. -/
def Lists (m : EngineManager) (key : String) (role : Role) (url : String) : Prop :=
  ∃ pool, m.modelPools key = some pool ∧ url ∈ pool.httpEngines role

def placement (m : EngineManager) (key url : String) : Option HttpFabricPlacement :=
  (m.modelPools key).bind (fun pool => pool.httpEngineFabricPlacements url)

def localIds (m : EngineManager) : List String := m.engineModelMap.map (·.1)

/-- What an engine contributes to the pools. -/
def Registration.Lists (r : Registration) (key : String) (role : Role) (url : String) : Prop :=
  key ∈ r.keys ∧ role = r.info.roleOf ∧ url = r.info.url

/-- Role, URL, placement and keys of an engine: all that the pools show of it. -/
def Registration.listing (r : Registration) : Role × String × HttpFabricPlacement × List String :=
  (r.info.roleOf, r.info.url, r.info.fabricPlacement, r.keys)

/-- One id has one URL, one URL has one placement. -/
structure Consistent (R : List Registration) : Prop where
  url : ∀ r ∈ R, ∀ r' ∈ R, r.info.engineId = r'.info.engineId → r.info.url = r'.info.url
  placement : ∀ r ∈ R, ∀ r' ∈ R, r.info.url = r'.info.url → r.info.fabricPlacement = r'.info.fabricPlacement

/-- The manager after a list whose engines registered as `R`. -/
structure Listed (m : EngineManager) (R : List Registration) : Prop where
  ids : ∀ id, id ∈ m.localIds ↔ ∃ r ∈ R, r.info.engineId = id
  urls : ∀ r ∈ R, m.httpEngineUrls r.info.engineId = some r.info.url
  lists : ∀ key role url, m.Lists key role url ↔ ∃ r ∈ R, r.Lists key role url
  placements : ∀ r ∈ R, ∀ key ∈ r.keys, m.placement key r.info.url = some r.info.fabricPlacement

/-! ## Insertion -/

variable {m : EngineManager} {R : List Registration} {r : Registration}

theorem insertHttpEngine_lists (m : EngineManager) (info : HttpEngineInfo) (modelKey key : String) (role : Role)
    (url : String) : (m.insertHttpEngine info modelKey).Lists key role url ↔
      m.Lists key role url ∨ key = modelKey ∧ role = info.roleOf ∧ url = info.url := by
  unfold Lists insertHttpEngine
  by_cases hkey : key = modelKey
  · subst hkey
    by_cases hrole : role = info.roleOf
    · subst hrole
      cases hpool : m.modelPools key with
      | none => simp [ModelPool.default]
      | some pool =>
        simp only [Function.update_self, Option.getD_some, Option.some.injEq, exists_eq_left', true_and]
        by_cases hmem : info.url ∈ pool.httpEngines info.roleOf
        · rw [if_pos hmem]
          refine ⟨.inl, ?_⟩
          rintro (h | rfl)
          · exact h
          · exact hmem
        · rw [if_neg hmem]
          simp
    · cases hpool : m.modelPools key with
      | none => simp [ModelPool.default, hrole]
      | some pool => simp [hrole]
  · simp [hkey]

theorem insertHttpEngine_placement (m : EngineManager) (info : HttpEngineInfo) (modelKey key url : String) :
    (m.insertHttpEngine info modelKey).placement key url =
      if key = modelKey ∧ url = info.url then some info.fabricPlacement else m.placement key url := by
  unfold placement insertHttpEngine
  by_cases hkey : key = modelKey
  · subst hkey
    by_cases hurl : url = info.url
    · subst hurl
      simp
    · cases hpool : m.modelPools key <;> simp [hurl, ModelPool.default]
  · simp [hkey]

/-- The keys of an engine, one after another. -/
theorem foldl_insertHttpEngine (keys : List String) (info : HttpEngineInfo) (m : EngineManager) :
    (∀ key role url, (keys.foldl (fun m key => m.insertHttpEngine info key) m).Lists key role url ↔
      m.Lists key role url ∨ key ∈ keys ∧ role = info.roleOf ∧ url = info.url) ∧
    (∀ key url, (keys.foldl (fun m key => m.insertHttpEngine info key) m).placement key url =
      if key ∈ keys ∧ url = info.url then some info.fabricPlacement else m.placement key url) ∧
    (∀ id, id ≠ info.engineId →
      (keys.foldl (fun m key => m.insertHttpEngine info key) m).httpEngineUrls id = m.httpEngineUrls id) ∧
    (keys ≠ [] → (keys.foldl (fun m key => m.insertHttpEngine info key) m).httpEngineUrls info.engineId =
      some info.url) ∧
    ∀ id, id ≠ info.engineId →
      (id ∈ (keys.foldl (fun m key => m.insertHttpEngine info key) m).localIds ↔ id ∈ m.localIds) := by
  induction keys generalizing m with
  | nil => simp
  | cons key keys ih =>
    obtain ⟨hlists, hplace, hurls, hurl, hids⟩ := ih (m.insertHttpEngine info key)
    rw [List.foldl_cons]
    refine ⟨fun key' role url => ?_, fun key' url => ?_, fun id hid => ?_, fun _ => ?_, fun id hid => ?_⟩
    · rw [hlists, insertHttpEngine_lists, List.mem_cons]
      tauto
    · rw [hplace, insertHttpEngine_placement]
      by_cases hurl' : url = info.url
      · by_cases hmem : key' ∈ keys <;> by_cases hkey : key' = key <;> simp [hmem, hkey, hurl']
      · simp [hurl']
    · rw [hurls id hid]
      exact Function.update_of_ne hid _ _
    · by_cases hkeys : keys = []
      · subst hkeys
        exact Function.update_self _ _ _
      · exact hurl hkeys
    · rw [hids id hid]
      simp [localIds, insertHttpEngine, hid]

/-- One more engine, with a URL and a placement that agree with those listed. -/
theorem Listed.register (h : Listed m R) (hkeys : r.keys ≠ []) (hcons : Consistent (R ++ [r])) :
    Listed (m.register r) (R ++ [r]) := by
  obtain ⟨hlists, hplace, hurls, hurl, hids⟩ := foldl_insertHttpEngine r.keys r.info m
  have hlast : r ∈ R ++ [r] := List.mem_append_right R List.mem_cons_self
  have hmem : ∀ {r' : Registration}, r' ∈ R → r' ∈ R ++ [r] := fun hr' => List.mem_append_left [r] hr'
  -- an engine that was listed under the id has the same URL and placement, so overwriting changes nothing
  refine ⟨fun id => ?_, fun r' hr' => ?_, fun key role url => ?_, fun r' hr' key hkey => ?_⟩
  · have hreg : id ∈ (m.register r).localIds ↔ id = r.info.engineId ∨ id ∈ m.localIds := by
      by_cases hid : id = r.info.engineId
      · simp [localIds, EngineManager.register, hid]
      · have hother := hids id hid
        unfold localIds at hother ⊢
        simp only [EngineManager.register, List.map_append, List.mem_append, List.map_cons, List.map_nil,
          List.mem_singleton, hid, or_false, false_or]
        rw [← hother]
        simp only [List.mem_map, List.mem_filter, decide_eq_true_eq]
        refine ⟨fun ⟨e, he, hfst⟩ => ⟨e, he.1, hfst⟩, fun ⟨e, he, hfst⟩ => ⟨e, ⟨he, ?_⟩, hfst⟩⟩
        rw [hfst]
        exact hid
    rw [hreg, h.ids]
    simp only [List.mem_append, List.mem_singleton]
    refine ⟨?_, ?_⟩
    · rintro (rfl | ⟨r', hr', rfl⟩)
      · exact ⟨r, .inr rfl, rfl⟩
      · exact ⟨r', .inl hr', rfl⟩
    · rintro ⟨r', hr' | rfl, rfl⟩
      · exact .inr ⟨r', hr', rfl⟩
      · exact .inl rfl
  · show (r.keys.foldl (fun m key => m.insertHttpEngine r.info key) m).httpEngineUrls r'.info.engineId = _
    by_cases hid : r'.info.engineId = r.info.engineId
    · rw [hid, hurl hkeys, hcons.url r hlast r' hr' hid.symm]
    · rcases List.mem_append.1 hr' with hold | hnew
      · rw [hurls _ hid]
        exact h.urls r' hold
      · exact absurd (by rw [List.mem_singleton.1 hnew]) hid
  · show (r.keys.foldl (fun m key => m.insertHttpEngine r.info key) m).Lists key role url ↔ _
    rw [hlists, h.lists]
    simp only [List.mem_append, List.mem_singleton]
    refine ⟨?_, ?_⟩
    · rintro (⟨r', hr', hl⟩ | hl)
      · exact ⟨r', .inl hr', hl⟩
      · exact ⟨r, .inr rfl, hl⟩
    · rintro ⟨r', hr' | rfl, hl⟩
      · exact .inl ⟨r', hr', hl⟩
      · exact .inr hl
  · show (r.keys.foldl (fun m key => m.insertHttpEngine r.info key) m).placement key r'.info.url = _
    rw [hplace]
    split
    case isTrue hboth => rw [hcons.placement r hlast r' hr' hboth.2.symm]
    case isFalse hneither =>
      rcases List.mem_append.1 hr' with hold | hnew
      · exact h.placements r' hold key hkey
      · rw [List.mem_singleton.1 hnew] at hkey hneither
        exact absurd ⟨hkey, rfl⟩ hneither

/-! ## Removal -/

theorem handleRemoveEngine_lists (m : EngineManager) (id key : String) (role : Role) (url : String) :
    (m.handleRemoveEngine id).2.Lists key role url ↔ m.Lists key role url ∧ m.httpEngineUrls id ≠ some url := by
  unfold handleRemoveEngine Lists
  cases hid : m.httpEngineUrls id with
  | none => simp
  | some u =>
    cases hpool : m.modelPools key with
    | none => simp [hpool]
    | some pool => simp [hpool, ModelPool.remove, eq_comm (a := u)]

theorem handleRemoveEngine_placement (m : EngineManager) (id key url : String) :
    (m.handleRemoveEngine id).2.placement key url =
      if m.httpEngineUrls id = some url then none else m.placement key url := by
  unfold handleRemoveEngine placement
  cases hid : m.httpEngineUrls id with
  | none => simp
  | some u =>
    cases hpool : m.modelPools key with
    | none => simp [hpool]
    | some pool => by_cases hurl : url = u <;> simp [hpool, ModelPool.remove, hurl, eq_comm (a := u)]

theorem handleRemoveEngine_urls (m : EngineManager) (id : String) :
    (m.handleRemoveEngine id).2.httpEngineUrls = Function.update m.httpEngineUrls id none := by
  unfold handleRemoveEngine
  cases hid : m.httpEngineUrls id with
  | none =>
    show m.httpEngineUrls = _
    rw [← hid, Function.update_eq_self]
  | some u => rfl

theorem handleRemoveEngine_localIds (m : EngineManager) {id : String}
    (hid : id ∈ m.localIds → m.httpEngineUrls id ≠ none)
    (id' : String) : id' ∈ (m.handleRemoveEngine id).2.localIds ↔ id' ∈ m.localIds ∧ id' ≠ id := by
  unfold handleRemoveEngine
  cases hu : m.httpEngineUrls id with
  | none =>
    refine ⟨fun hmem => ⟨hmem, ?_⟩, And.left⟩
    rintro rfl
    exact hid hmem hu
  | some u =>
    unfold localIds
    simp only [List.mem_map, List.mem_filter, decide_eq_true_eq]
    refine ⟨?_, ?_⟩
    · rintro ⟨e, ⟨he, hne⟩, rfl⟩
      exact ⟨⟨e, he, rfl⟩, hne⟩
    · rintro ⟨⟨e, he, rfl⟩, hne⟩
      exact ⟨e, ⟨he, hne⟩, rfl⟩

theorem removeStale_lists (stale : List String) (m : EngineManager) (key : String) (role : Role) (url : String) :
    (m.removeStale stale).Lists key role url ↔ m.Lists key role url ∧
      ∀ id ∈ stale, m.httpEngineUrls id ≠ some url := by
  induction stale generalizing m with
  | nil => simp [removeStale]
  | cons id stale ih =>
    have hstep := ih (m.handleRemoveEngine id).2
    rw [removeStale, List.foldl_cons]
    rw [removeStale] at hstep
    rw [hstep, handleRemoveEngine_lists, handleRemoveEngine_urls, List.forall_mem_cons, and_assoc]
    refine and_congr_right fun _ => and_congr_right fun hurl => forall₂_congr fun id' _ => ?_
    by_cases hid : id' = id
    · subst hid
      simpa using hurl
    · rw [Function.update_of_ne hid]

theorem removeStale_placement (stale : List String) (m : EngineManager) (key url : String)
    (h : ∀ id ∈ stale, m.httpEngineUrls id ≠ some url) :
      (m.removeStale stale).placement key url = m.placement key url := by
  induction stale generalizing m with
  | nil => rfl
  | cons id stale ih =>
    rw [List.forall_mem_cons] at h
    rw [removeStale, List.foldl_cons]
    have hstep := ih (m.handleRemoveEngine id).2 fun id' hid' => by
      rw [handleRemoveEngine_urls]
      by_cases hid : id' = id
      · simp [hid]
      · rw [Function.update_of_ne hid]
        exact h.2 id' hid'
    rw [removeStale] at hstep
    rw [hstep, handleRemoveEngine_placement, if_neg h.1]

theorem removeStale_urls (stale : List String) (m : EngineManager) {id : String} (hid : id ∉ stale) :
    (m.removeStale stale).httpEngineUrls id = m.httpEngineUrls id := by
  induction stale generalizing m with
  | nil => rfl
  | cons id' stale ih =>
    rw [List.mem_cons, not_or] at hid
    rw [removeStale, List.foldl_cons]
    have hstep := ih (m.handleRemoveEngine id').2 hid.2
    rw [removeStale] at hstep
    rw [hstep, handleRemoveEngine_urls, Function.update_of_ne hid.1]

theorem removeStale_localIds (stale : List String) (m : EngineManager)
    (h : ∀ id ∈ stale, id ∈ m.localIds → m.httpEngineUrls id ≠ none) (id : String) :
    id ∈ (m.removeStale stale).localIds ↔ id ∈ m.localIds ∧ id ∉ stale := by
  induction stale generalizing m with
  | nil => simp [removeStale]
  | cons id' stale ih =>
    rw [List.forall_mem_cons] at h
    have hlocal := handleRemoveEngine_localIds m h.1
    have hstep := ih (m.handleRemoveEngine id').2 fun i hi hmem => by
      obtain ⟨hmem, hne⟩ := (hlocal i).1 hmem
      rw [handleRemoveEngine_urls, Function.update_of_ne hne]
      exact h.2 i hi hmem
    rw [removeStale] at hstep
    rw [removeStale, List.foldl_cons, hstep, hlocal, List.mem_cons, not_or, and_assoc]

/-! ## One sync -/

/-- The well-formed engines of a list, as they register. -/
def registrations (engines : List Value) : List Registration := engines.filterMap (fun e => (registration e).toOption)

/-- The well-formed engines of a list that have an id: a sync skips the others. -/
def liveRegistrations (live : List Value) : List Registration :=
  live.filterMap (fun e => (entityId e).bind (fun _ => (registration e).toOption))

theorem registration_ok {e : Value} (h : registration e = .ok r) :
    r.info.engineId = (entityId e).getD "unknown" ∧ r.keys ≠ [] := by
  unfold registration at h
  split at h
  case h_1 => cases h
  case h_2 info hinfo =>
    have hid : info.engineId = (entityId e).getD "unknown" := by
      unfold parseHttpEngineInfo at hinfo
      split at hinfo
      case isTrue => cases hinfo
      case isFalse =>
        obtain ⟨endpoint, -, hinfo⟩ := Option.bind_eq_some_iff.1 hinfo
        dsimp only at hinfo
        split at hinfo
        case isTrue => cases hinfo
        case isFalse =>
          obtain ⟨host, -, hinfo⟩ := Option.bind_eq_some_iff.1 hinfo
          obtain ⟨port, -, hinfo⟩ := Option.bind_eq_some_iff.1 hinfo
          cases hinfo
          rfl
    split at h
    case h_1 => cases h
    case h_2 metadata _ =>
      split at h
      case h_1 => cases h
      case h_2 modelPath _ =>
        cases h
        refine ⟨hid, ?_⟩
        dsimp only
        split
        case isTrue => simp
        case isFalse hne => exact hne

theorem mem_liveRegistrations {live : List Value} : r ∈ liveRegistrations live ↔
    ∃ e ∈ live, entityId e = some r.info.engineId ∧ registration e = .ok r := by
  have htoOption : ∀ {x : Except String Registration}, x.toOption = some r ↔ x = .ok r := by
    intro x
    cases x <;> simp [Except.toOption]
  unfold liveRegistrations
  rw [List.mem_filterMap]
  refine exists_congr fun e => and_congr_right fun _ => ?_
  cases hid : entityId e with
  | none => simp
  | some id =>
    rw [Option.bind_some, htoOption]
    refine ⟨fun h => ⟨?_, h⟩, And.right⟩
    rw [(registration_ok h).1, hid]
    rfl

/-- The list that follows `prev` describes the same engines, apart from those that come and go. -/
structure Compatible (prev : List Registration) (live : List Value) : Prop where
  /-- An engine that stays is still well-formed and shows the pools the same. -/
  kept : ∀ r ∈ prev, ∀ e ∈ live, entityId e = some r.info.engineId →
    ∃ r', registration e = .ok r' ∧ r'.listing = r.listing
  /-- No live engine has the URL of an engine that has gone. -/
  gone : ∀ r ∈ prev, r.info.engineId ∉ live.filterMap entityId →
    ∀ r' ∈ liveRegistrations live, r'.info.url ≠ r.info.url
  consistent : Consistent (liveRegistrations live)

/-- The engines that a sync adds. -/
def newRegistrations (localIds : List String) (live : List Value) : List Registration :=
  live.filterMap (fun e => (entityId e).bind (fun id => if id ∈ localIds then none else (registration e).toOption))

theorem mem_newRegistrations {localIds : List String} {live : List Value} :
    r ∈ newRegistrations localIds live ↔ r ∈ liveRegistrations live ∧ r.info.engineId ∉ localIds := by
  rw [mem_liveRegistrations]
  unfold newRegistrations
  rw [List.mem_filterMap]
  constructor
  · rintro ⟨e, he, hr⟩
    obtain ⟨id, hid, hr⟩ := Option.bind_eq_some_iff.1 hr
    split at hr
    case isTrue => cases hr
    case isFalse hnew =>
      have hok : registration e = .ok r := by
        cases hreg : registration e with
        | error e' => rw [hreg] at hr; cases hr
        | ok r' => rw [hreg] at hr; cases hr; rfl
      have hrid : r.info.engineId = id := by
        rw [(registration_ok hok).1, hid]
        rfl
      exact ⟨⟨e, he, by rw [hid, hrid], hok⟩, hrid ▸ hnew⟩
  · rintro ⟨⟨e, he, hid, hok⟩, hnew⟩
    refine ⟨e, he, Option.bind_eq_some_iff.2 ⟨_, hid, ?_⟩⟩
    rw [if_neg hnew, hok]
    rfl

theorem Consistent.subset {R' : List Registration} (h : Consistent R) (hsub : R' ⊆ R) : Consistent R' :=
  ⟨fun r hr r' hr' => h.url r (hsub hr) r' (hsub hr'), fun r hr r' hr' => h.placement r (hsub hr) r' (hsub hr')⟩

/-- The first loop lists the new engines after those it knows. -/
theorem Listed.addLive {localIds : List String} (live : List Value) (h : Listed m R)
    (hcons : Consistent (R ++ newRegistrations localIds live)) :
    Listed (EngineManager.addLive localIds m live) (R ++ newRegistrations localIds live) := by
  induction live generalizing m R with
  | nil => simpa [EngineManager.addLive, newRegistrations] using h
  | cons e live ih =>
    have hskip : newRegistrations localIds (e :: live) = newRegistrations localIds live →
        Listed (EngineManager.addLive localIds m live) (R ++ newRegistrations localIds (e :: live)) := by
      intro hsame
      rw [hsame] at hcons ⊢
      exact ih h hcons
    unfold EngineManager.addLive at ih hskip ⊢
    rw [List.foldl_cons]
    cases hid : entityId e with
    | none => exact hskip (by simp [newRegistrations, hid])
    | some id =>
      by_cases hmem : id ∈ localIds
      · simp only [hmem, if_true]
        exact hskip (by simp [newRegistrations, hid, hmem])
      · simp only [hmem, if_false, addEngineFromInfo]
        cases hreg : registration e with
        | error err => exact hskip (by simp [newRegistrations, hid, hreg, Except.toOption])
        | ok r =>
          have hnew : newRegistrations localIds (e :: live) = r :: newRegistrations localIds live := by
            simp [newRegistrations, hid, hmem, hreg, Except.toOption]
          rw [hnew, List.append_cons] at hcons ⊢
          exact ih (h.register (registration_ok hreg).2 (hcons.subset (List.subset_append_left _ _))) hcons

section compatible

variable {prev : List Registration} {live : List Value}

/-- An engine that stays is listed again. -/
theorem Compatible.stays (h : Compatible prev live) (hr : r ∈ prev)
    (hmem : r.info.engineId ∈ live.filterMap entityId) :
    ∃ r' ∈ liveRegistrations live, r'.info.engineId = r.info.engineId ∧ r'.listing = r.listing := by
  obtain ⟨e, he, hid⟩ := List.mem_filterMap.1 hmem
  obtain ⟨r', hok, hlist⟩ := h.kept r hr e he hid
  have hid' : r'.info.engineId = r.info.engineId := by
    rw [(registration_ok hok).1, hid]
    rfl
  exact ⟨r', mem_liveRegistrations.2 ⟨e, he, by rw [hid, hid'], hok⟩, hid', hlist⟩

/-- A live engine was listed before or is new. -/
theorem Compatible.known (h : Compatible prev live) {ids : List String}
    (hids : ∀ id, id ∈ ids ↔ ∃ r ∈ prev, r.info.engineId = id) (hr : r ∈ liveRegistrations live) :
    ∃ r' ∈ prev ++ newRegistrations ids live, r'.info.engineId = r.info.engineId ∧ r'.listing = r.listing := by
  by_cases hmem : r.info.engineId ∈ ids
  · obtain ⟨r', hr', hid⟩ := (hids _).1 hmem
    obtain ⟨e, he, heid, hok⟩ := mem_liveRegistrations.1 hr
    obtain ⟨r'', hok'', hlist⟩ := h.kept r' hr' e he (by rw [heid, hid])
    rw [hok] at hok''
    cases hok''
    exact ⟨r', List.mem_append_left _ hr', hid, hlist.symm⟩
  · exact ⟨r, List.mem_append_right _ (mem_newRegistrations.2 ⟨hr, hmem⟩), rfl, rfl⟩

theorem Compatible.consistent_append (h : Compatible prev live) (hprev : Consistent prev) {ids : List String}
    (hids : ∀ id, id ∈ ids ↔ ∃ r ∈ prev, r.info.engineId = id) :
      Consistent (prev ++ newRegistrations ids live) := by
  have hmixed : ∀ r ∈ prev, ∀ r' ∈ newRegistrations ids live, r.info.url = r'.info.url →
      r.info.fabricPlacement = r'.info.fabricPlacement := by
    intro r hr r' hr' hurl
    have hr'live := (mem_newRegistrations.1 hr').1
    by_cases hmem : r.info.engineId ∈ live.filterMap entityId
    · obtain ⟨r'', hr'', -, hlist⟩ := h.stays hr hmem
      simp only [Registration.listing, Prod.mk.injEq] at hlist
      rw [← hlist.2.2.1]
      exact h.consistent.placement r'' hr'' r' hr'live (hlist.2.1.trans hurl)
    · exact absurd hurl.symm (h.gone r hr hmem r' hr'live)
  have hdistinct : ∀ r ∈ prev, ∀ r' ∈ newRegistrations ids live, r.info.engineId ≠ r'.info.engineId :=
    fun r hr r' hr' hid => (mem_newRegistrations.1 hr').2 ((hids _).2 ⟨r, hr, hid⟩)
  refine ⟨fun r hr r' hr' hid => ?_, fun r hr r' hr' hurl => ?_⟩
  · rcases List.mem_append.1 hr with hr | hr <;> rcases List.mem_append.1 hr' with hr' | hr'
    · exact hprev.url r hr r' hr' hid
    · exact absurd hid (hdistinct r hr r' hr')
    · exact absurd hid.symm (hdistinct r' hr' r hr)
    · exact h.consistent.url r (mem_newRegistrations.1 hr).1 r' (mem_newRegistrations.1 hr').1 hid
  · rcases List.mem_append.1 hr with hr | hr <;> rcases List.mem_append.1 hr' with hr' | hr'
    · exact hprev.placement r hr r' hr' hurl
    · exact hmixed r hr r' hr' hurl
    · exact (hmixed r' hr' r hr hurl.symm).symm
    · exact h.consistent.placement r (mem_newRegistrations.1 hr).1 r' (mem_newRegistrations.1 hr').1 hurl

/-- Engines with the same listing show the same in the pools. -/
theorem Registration.Lists.congr {r' : Registration} (hlist : r'.listing = r.listing) {key : String} {role : Role}
    {url : String} (h : r.Lists key role url) : r'.Lists key role url := by
  simp only [Registration.listing, Prod.mk.injEq] at hlist
  unfold Registration.Lists at h ⊢
  rwa [hlist.2.2.2, hlist.1, hlist.2.1]

/-- **A sync with a compatible list** leaves exactly the live engines listed. -/
theorem Listed.syncWith (h : Listed m prev) (hprev : Consistent prev) (hlive : Compatible prev live) :
    Listed (m.syncWith live) (liveRegistrations live) := by
  have hadd := h.addLive live (hlive.consistent_append hprev h.ids)
  set m₁ := EngineManager.addLive m.localIds m live with hm₁
  set stale := m.localIds.filter (fun id => decide (id ∉ live.filterMap entityId)) with hstale
  have hmemStale : ∀ id, id ∈ stale ↔ (∃ r ∈ prev, r.info.engineId = id) ∧
    id ∉ live.filterMap entityId := by
    intro id
    rw [hstale, List.mem_filter, decide_eq_true_eq, h.ids]
  have hliveId : ∀ r ∈ liveRegistrations live, r.info.engineId ∈ live.filterMap entityId := by
    intro r hr
    obtain ⟨e, he, heid, -⟩ := mem_liveRegistrations.1 hr
    exact List.mem_filterMap.2 ⟨e, he, heid⟩
  -- no stale id has the URL of a live engine
  have hurls : ∀ r ∈ liveRegistrations live, ∀ id ∈ stale, m₁.httpEngineUrls id ≠ some r.info.url := by
    intro r hr id hid hurl
    obtain ⟨⟨r', hr', rfl⟩, hnot⟩ := (hmemStale id).1 hid
    rw [hadd.urls r' (List.mem_append_left _ hr')] at hurl
    exact hlive.gone r' hr' hnot r hr (Option.some.inj hurl).symm
  have hsync : m.syncWith live = m₁.removeStale stale := rfl
  rw [hsync]
  refine ⟨fun id => ?_, fun r hr => ?_, fun key role url => ?_, fun r hr key hkey => ?_⟩
  · rw [removeStale_localIds stale m₁ fun i hi _ => ?_]
    · rw [hadd.ids, hmemStale, not_and, not_not]
      constructor
      · rintro ⟨⟨r, hr, rfl⟩, hnot⟩
        rcases List.mem_append.1 hr with hr | hr
        · obtain ⟨r', hr', hid, -⟩ := hlive.stays hr (hnot ⟨r, hr, rfl⟩)
          exact ⟨r', hr', hid⟩
        · exact ⟨r, (mem_newRegistrations.1 hr).1, rfl⟩
      · rintro ⟨r, hr, rfl⟩
        obtain ⟨r', hr', hid, -⟩ := hlive.known h.ids hr
        exact ⟨⟨r', hr', hid⟩, fun _ => hliveId r hr⟩
    · obtain ⟨⟨r', hr', rfl⟩, -⟩ := (hmemStale i).1 hi
      rw [hadd.urls r' (List.mem_append_left _ hr')]
      simp
  · rw [removeStale_urls stale m₁ fun hid => ((hmemStale _).1 hid).2 (hliveId r hr)]
    obtain ⟨r', hr', hid, hlist⟩ := hlive.known h.ids hr
    simp only [Registration.listing, Prod.mk.injEq] at hlist
    rw [← hid, hadd.urls r' hr', hlist.2.1]
  · rw [removeStale_lists, hadd.lists]
    constructor
    · rintro ⟨⟨r, hr, hl⟩, hnot⟩
      rcases List.mem_append.1 hr with hr | hr
      · by_cases hmem : r.info.engineId ∈ live.filterMap entityId
        · obtain ⟨r', hr', -, hlist⟩ := hlive.stays hr hmem
          exact ⟨r', hr', hl.congr hlist⟩
        · have hgone := hnot _ ((hmemStale _).2 ⟨⟨r, hr, rfl⟩, hmem⟩)
          rw [hadd.urls r (List.mem_append_left _ hr), hl.2.2] at hgone
          exact absurd rfl hgone
      · exact ⟨r, (mem_newRegistrations.1 hr).1, hl⟩
    · rintro ⟨r, hr, hl⟩
      obtain ⟨r', hr', -, hlist⟩ := hlive.known h.ids hr
      refine ⟨⟨r', hr', hl.congr hlist⟩, fun id hid => ?_⟩
      rw [hl.2.2]
      exact hurls r hr id hid
  · rw [removeStale_placement stale m₁ key r.info.url (hurls r hr)]
    obtain ⟨r', hr', -, hlist⟩ := hlive.known h.ids hr
    simp only [Registration.listing, Prod.mk.injEq] at hlist
    rw [← hlist.2.1, hadd.placements r' hr' key (hlist.2.2.2 ▸ hkey), hlist.2.2.1]

end compatible

end EngineManager

/-! ## Runs -/

open EngineManager Transition

/-- The router: its manager, the engines known from its last list and the list of the last sync. -/
structure RouterState where
  manager : EngineManager
  known : Option (List Registration)
  lastSync : Option (List Value)

inductive RouterOp
  /-- the initial load -/
  | load (engines : List Value)
  /-- a periodic sync and what the control service replies -/
  | sync (reply : Except String Value)

/-- The engines of a reply. -/
def repliedEngines (reply : Except String Value) : Except String (List Value) := reply.bind listEngines

def RouterState.next (x : RouterState) : RouterOp → Option RouterState
  | .load engines =>
    match x.known with
    | none => some ⟨x.manager.loadInitialEngines engines, some (registrations engines), none⟩
    | some _ => none
  | .sync reply =>
    match x.known with
    | none => none
    | some known =>
      let m := (x.manager.handlePeriodicSync reply).2
      match repliedEngines reply with
      | .error _ => some ⟨m, some known, x.lastSync⟩
      | .ok live => some ⟨m, some (liveRegistrations live), some live⟩

/-- **The pools are those of the live engines.** -/
structure Follows (m : EngineManager) (live : List Value) : Prop where
  lists : ∀ key role url, m.Lists key role url ↔ ∃ r ∈ liveRegistrations live, r.Lists key role url
  placements : ∀ r ∈ liveRegistrations live, ∀ key ∈ r.keys,
    m.placement key r.info.url = some r.info.fabricPlacement

/-! ### Compatible lists -/

def consistent (R : List Registration) : Bool :=
  R.all (fun r => R.all (fun r' =>
    (decide (r.info.engineId ≠ r'.info.engineId) || decide (r.info.url = r'.info.url)) &&
      (decide (r.info.url ≠ r'.info.url) || decide (r.info.fabricPlacement = r'.info.fabricPlacement))))

end Router

end NanoEngine
